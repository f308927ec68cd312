import BtcRpcProxy.CredentialsHeader
import BtcRpcProxy.RpcauthLines

/-!
The users `create_state` takes from the `rpcauth` lines of a bitcoin.conf, beside those bitcoind takes
from the same file. The proxy keeps the last entry of a name where bitcoind keeps them all, and ends
where a hash cannot be read.
-/

namespace BtcRpcProxy

open TextLines

def Bitcoind.Authenticates (credentials : Credentials) (text name password : String) : Prop :=
  ∃ line ∈ text.toList.splitOn '\n', ∃ salt hash, Bitcoind.rpcauth line = some (name.toList, salt, hash) ∧
    hash = hexChars (credentials.hmacSha256 (utf8Bytes (String.ofList salt)) (utf8Bytes password))

/-! The users that are built. -/

theorem lookup_filter_of_ne {name other : String} (different : other ≠ name)
    (users : List (String × InputUser)) :
    (users.filter fun entry => entry.1 != name).lookup other = users.lookup other := by
  induction users with
  | nil => rfl
  | cons first rest ih =>
      obtain ⟨key, user⟩ := first
      by_cases dropped : key = name
      · rw [List.lookup_cons, beq_false_of_ne (dropped ▸ different)]
        simpa [dropped] using ih
      · simp [List.lookup_cons, dropped, ih]

theorem lookup_insertUser (users : List (String × InputUser)) (name other : String) (user : InputUser) :
    (insertUser users name user).lookup other = if other = name then some user else users.lookup other := by
  unfold insertUser
  split
  · rename_i same
    rw [same, List.lookup_cons_self]
  · rename_i different
    rw [List.lookup_cons, beq_false_of_ne different]
    exact lookup_filter_of_ne different users

theorem lookup_mapDefault (users : List (String × InputUser)) (defaultFetchBlocks : Bool) (name : String) :
    (mapDefault users defaultFetchBlocks).lookup name =
      (users.lookup name).map (InputUser.mapDefault · defaultFetchBlocks) := by
  induction users with
  | nil => rfl
  | cons first rest ih =>
      rw [mapDefault] at ih ⊢
      rw [List.map_cons, List.lookup_cons, List.lookup_cons, ih]
      cases name == first.1 <;> rfl

def rpcauthUser (salt : List Char) (digest : List UInt8) : InputUser :=
  { password := .hash (String.ofList salt) digest,
    allowedCalls := none,
    fetchBlocks := none,
    overrideWallet := none }

section

variable {fromHexError : String → AnyhowError} {users after : List (String × InputUser)} {name : String}

theorem insertRpcauth_cases {line : List Char}
    (inserted : insertRpcauth fromHexError users line = .ok after) :
    ((∀ uname salt hash, ¬TakesEntry line uname salt hash) ∧ after = users) ∨
      ∃ uname salt hash digest, TakesEntry line uname salt hash ∧ hexBytes hash = some digest ∧
        after = insertUser users (String.ofList uname) (rpcauthUser salt digest) := by
  simp only [← rpcauthLine_eq_some_iff]
  unfold insertRpcauth at inserted
  cases read : rpcauthLine line with
  | none =>
      simp only [read, Except.ok.injEq] at inserted
      exact Or.inl ⟨by simp, inserted.symm⟩
  | some parts =>
      obtain ⟨uname, salt, hash⟩ := parts
      simp only [read] at inserted
      cases decoded : hexBytes hash with
      | none => simp [decoded] at inserted
      | some digest =>
          simp only [decoded, Except.ok.injEq] at inserted
          exact Or.inr ⟨uname, salt, hash, digest, rfl, decoded, inserted.symm⟩

theorem insertRpcauth_ok_iff {line : List Char} :
    (∃ after, insertRpcauth fromHexError users line = .ok after) ↔
      ∀ uname salt hash, TakesEntry line uname salt hash → ∃ digest, hexBytes hash = some digest := by
  simp only [← rpcauthLine_eq_some_iff]
  unfold insertRpcauth
  cases read : rpcauthLine line with
  | none => simp
  | some parts =>
      obtain ⟨uname, salt, hash⟩ := parts
      cases decoded : hexBytes hash with
      | none => simp [decoded]
      | some digest => simp [decoded]

theorem lookup_of_taken {line salt hash : List Char} (taken : TakesEntry line name.toList salt hash)
    (inserted : insertRpcauth fromHexError users line = .ok after) :
    ∃ digest, hexBytes hash = some digest ∧ after.lookup name = some (rpcauthUser salt digest) := by
  have read := rpcauthLine_eq_some_iff.mpr taken
  rcases insertRpcauth_cases inserted with ⟨none, _⟩ | ⟨uname, _, _, digest, other, decoded, rfl⟩
  · exact absurd taken (none _ _ _)
  · have same := Option.some.inj ((rpcauthLine_eq_some_iff.mpr other).symm.trans read)
    simp only [Prod.mk.injEq] at same
    obtain ⟨rfl, rfl, rfl⟩ := same
    refine ⟨digest, decoded, ?_⟩
    rw [lookup_insertUser, String.ofList_toList, if_pos rfl]

theorem lookup_of_notTaken {line : List Char} (notTaken : ∀ salt hash, ¬TakesEntry line name.toList salt hash)
    (inserted : insertRpcauth fromHexError users line = .ok after) :
    after.lookup name = users.lookup name := by
  rcases insertRpcauth_cases inserted with ⟨_, rfl⟩ | ⟨uname, salt, hash, digest, taken, _, rfl⟩
  · rfl
  · rw [lookup_insertUser, if_neg]
    rintro rfl
    rw [String.toList_ofList] at notTaken
    exact notTaken salt hash taken

theorem bind_eq_ok_iff {Error First Second : Type} {first : Except Error First}
    {next : First → Except Error Second} {result : Second} :
    (first >>= next) = .ok result ↔ ∃ between, first = .ok between ∧ next between = .ok result := by
  cases first with
  | error error => simp [bind, Except.bind]
  | ok value => simp [bind, Except.bind]

def LastEntry (name : List Char) (read : List (List Char)) (salt hash : List Char) : Prop :=
  ∃ before line later, read = before ++ line :: later ∧ TakesEntry line name salt hash ∧
    ∀ other ∈ later, ∀ salt hash, ¬TakesEntry other name salt hash

theorem lastEntry_or_none (name : List Char) (read : List (List Char)) :
    (∃ salt hash, LastEntry name read salt hash) ∨
      ∀ line ∈ read, ∀ salt hash, ¬TakesEntry line name salt hash := by
  induction read with
  | nil => exact Or.inr (by simp)
  | cons line later ih =>
      rcases ih with ⟨salt, hash, before, last, rest, isLater, taken⟩ | none
      · exact Or.inl ⟨salt, hash, line :: before, last, rest, by rw [isLater, List.cons_append], taken⟩
      · by_cases taken : ∃ salt hash, TakesEntry line name salt hash
        · obtain ⟨salt, hash, taken⟩ := taken
          exact Or.inl ⟨salt, hash, [], line, later, rfl, taken, none⟩
        · refine Or.inr (List.forall_mem_cons.mpr ⟨?_, none⟩)
          exact fun salt hash isTaken => taken ⟨salt, hash, isTaken⟩

theorem lookup_of_noneTaken {read : List (List Char)}
    (noneTaken : ∀ line ∈ read, ∀ salt hash, ¬TakesEntry line name.toList salt hash)
    (run : read.foldlM (insertRpcauth fromHexError) users = .ok after) :
    after.lookup name = users.lookup name := by
  induction read generalizing users with
  | nil =>
      rw [List.foldlM_nil] at run
      rw [Except.ok.inj run]
  | cons line later ih =>
      rw [List.foldlM_cons, bind_eq_ok_iff] at run
      obtain ⟨between, inserted, rest⟩ := run
      obtain ⟨notTaken, noneLater⟩ := List.forall_mem_cons.mp noneTaken
      rw [ih noneLater rest, lookup_of_notTaken notTaken inserted]

theorem lookup_of_lastEntry {read : List (List Char)} {salt hash : List Char}
    (last : LastEntry name.toList read salt hash)
    (run : read.foldlM (insertRpcauth fromHexError) users = .ok after) :
    ∃ digest, hexBytes hash = some digest ∧ after.lookup name = some (rpcauthUser salt digest) := by
  obtain ⟨before, line, later, rfl, taken, noneLater⟩ := last
  rw [List.foldlM_append, bind_eq_ok_iff] at run
  obtain ⟨between, _, run⟩ := run
  rw [List.foldlM_cons, bind_eq_ok_iff] at run
  obtain ⟨inserted, isInserted, rest⟩ := run
  rw [lookup_of_noneTaken noneLater rest]
  exact lookup_of_taken taken isInserted

theorem foldlM_ok_iff {read : List (List Char)} :
    (∃ after, read.foldlM (insertRpcauth fromHexError) users = .ok after) ↔
      ∀ line ∈ read, ∀ uname salt hash, TakesEntry line uname salt hash →
        ∃ digest, hexBytes hash = some digest := by
  induction read generalizing users with
  | nil => simp [pure, Except.pure]
  | cons line later ih =>
      simp only [List.foldlM_cons, bind_eq_ok_iff, List.forall_mem_cons]
      constructor
      · rintro ⟨after, between, inserted, rest⟩
        exact ⟨insertRpcauth_ok_iff.mp ⟨between, inserted⟩, ih.mp ⟨after, rest⟩⟩
      · rintro ⟨first, rest⟩
        obtain ⟨between, inserted⟩ := insertRpcauth_ok_iff.mpr first
        obtain ⟨after, run⟩ := ih.mpr rest
        exact ⟨after, between, inserted, run⟩

/-- No line of the cookie file, if there is one, is for the name. -/
def CookieSpares (readToString : String → Except AnyhowError String) (passthroughRpccookie : Option String)
    (name : String) : Prop :=
  ∀ conf text, passthroughRpccookie = some conf → readToString conf = .ok text →
    ∀ line ∈ lines text.toList, ∀ rest, rpccookieLine line ≠ some (name.toList, rest)

def CookieReadable (readToString : String → Except AnyhowError String)
    (passthroughRpccookie : Option String) : Prop :=
  ∀ conf, passthroughRpccookie = some conf → ∃ text, readToString conf = .ok text

theorem lookup_insertRpccookie {conf : String} {read : List (List Char)}
    (others : ∀ line ∈ read, ∀ rest, rpccookieLine line ≠ some (name.toList, rest)) :
    (read.foldl (insertRpccookie conf) users).lookup name = users.lookup name := by
  induction read generalizing users with
  | nil => rfl
  | cons line later ih =>
      obtain ⟨first, rest⟩ := List.forall_mem_cons.mp others
      rw [List.foldl_cons, ih rest]
      unfold insertRpccookie
      cases named : rpccookieLine line with
      | none => rfl
      | some parts =>
          simp only
          rw [lookup_insertUser, if_neg]
          rintro rfl
          rw [String.toList_ofList] at first
          exact first parts.2 named

theorem addRpccookie_ok_iff {readToString : String → Except AnyhowError String}
    {passthroughRpccookie : Option String} :
    (∃ after, addRpccookie readToString users passthroughRpccookie = .ok after) ↔
      CookieReadable readToString passthroughRpccookie := by
  unfold CookieReadable
  cases passthroughRpccookie with
  | none => simp [addRpccookie]
  | some conf => cases read : readToString conf <;> simp [addRpccookie, read]

theorem lookup_addRpccookie {readToString : String → Except AnyhowError String}
    {passthroughRpccookie : Option String} (spares : CookieSpares readToString passthroughRpccookie name)
    (added : addRpccookie readToString users passthroughRpccookie = .ok after) :
    after.lookup name = users.lookup name := by
  cases passthroughRpccookie with
  | none => rw [Except.ok.inj added]
  | some conf =>
      cases read : readToString conf with
      | error error => simp [addRpccookie, read] at added
      | ok text =>
          simp only [addRpccookie, read, Except.ok.injEq] at added
          rw [← added, lookup_insertRpccookie (spares conf text rfl read)]

end

/-! The users of a state. -/

def Users.Authenticates (users : Users) (credentials : Credentials) (name password : String) : Prop :=
  ∃ user, users.lookup name = some user ∧ user.password.eq credentials password = some true

def ReadableEntries (text : String) : Prop :=
  ∀ line ∈ lines text.toList, ∀ name salt hash, TakesEntry line name salt hash →
    ∃ digest, hash.map Char.toLower = hexChars digest

/-- The last line with an entry for the name has the hash of the password, or there is none and the
configuration has the name with the password. -/
def CarriesPassword (credentials : Credentials) (config : Config) (text name password : String) : Prop :=
  (∃ salt hash, LastEntry name.toList (lines text.toList) salt hash ∧ hash.map Char.toLower =
    hexChars (credentials.hmacSha256 (utf8Bytes (String.ofList salt)) (utf8Bytes password))) ∨
  ((∀ line ∈ lines text.toList, ∀ salt hash, ¬TakesEntry line name.toList salt hash) ∧
    ∃ user, config.user.lookup name = some user ∧ user.password.eq credentials password = some true)

section

variable {credentials : Credentials} {readToString : String → Except AnyhowError String}
  {fromHexError : String → AnyhowError} {config : Config} {conf text name password : String}

theorem eq_rpcauthUser {salt hash : List Char} {digest : List UInt8} (decoded : hexBytes hash = some digest) :
    (rpcauthUser salt digest).password.eq credentials password = some true ↔ hash.map Char.toLower =
      hexChars (credentials.hmacSha256 (utf8Bytes (String.ofList salt)) (utf8Bytes password)) := by
  rw [← hexBytes_eq_some_iff, decoded, rpcauthUser, Password.eq, Option.some_inj, Option.some_inj, beq_iff_eq]
  exact eq_comm

theorem createUsers_ok_iff (given : config.passthroughRpcauth = some conf)
    (read : readToString conf = .ok text)
    (spares : CookieSpares readToString config.passthroughRpccookie name) {entry : Option User} :
    (∃ built, createUsers readToString fromHexError config = .ok built ∧ built.lookup name = entry) ↔
      CookieReadable readToString config.passthroughRpccookie ∧
      ∃ users, (lines text.toList).foldlM (insertRpcauth fromHexError) config.user = .ok users ∧
        (users.lookup name).map (InputUser.mapDefault · config.defaultFetchBlocks) = entry := by
  simp only [createUsers, addRpcauth, given, read]
  cases run : (lines text.toList).foldlM (insertRpcauth fromHexError) config.user with
  | error error => simp
  | ok users =>
      have cookie : (∃ after, addRpccookie readToString users config.passthroughRpccookie = .ok after) ↔
          CookieReadable readToString config.passthroughRpccookie := addRpccookie_ok_iff
      rw [← cookie]
      cases added : addRpccookie readToString users config.passthroughRpccookie with
      | error error => simp [added]
      | ok after =>
          simp only [added, Except.ok.injEq, exists_eq_left', exists_eq', true_and, lookup_mapDefault,
            lookup_addRpccookie spares added]

theorem createUsers_authenticates_iff (given : config.passthroughRpcauth = some conf)
    (read : readToString conf = .ok text)
    (spares : CookieSpares readToString config.passthroughRpccookie name) :
    (∃ users, createUsers readToString fromHexError config = .ok users ∧
      users.Authenticates credentials name password) ↔
        CookieReadable readToString config.passthroughRpccookie ∧
        ∃ users, (lines text.toList).foldlM (insertRpcauth fromHexError) config.user = .ok users ∧
          ∃ user, users.lookup name = some user ∧ user.password.eq credentials password = some true := by
  constructor
  · rintro ⟨built, isBuilt, user, found, isEqual⟩
    obtain ⟨readable, users, run, mapped⟩ :=
      (createUsers_ok_iff given read spares).mp ⟨built, isBuilt, rfl⟩
    rw [found, Option.map_eq_some_iff] at mapped
    obtain ⟨input, isInput, rfl⟩ := mapped
    exact ⟨readable, users, run, input, isInput, isEqual⟩
  · rintro ⟨readable, users, run, input, found, isEqual⟩
    obtain ⟨built, isBuilt, mapped⟩ :=
      (createUsers_ok_iff given read spares).mpr ⟨readable, users, run, rfl⟩
    rw [found] at mapped
    exact ⟨built, isBuilt, _, mapped, isEqual⟩

theorem foldlM_authenticates_iff :
    (∃ users, (lines text.toList).foldlM (insertRpcauth fromHexError) config.user = .ok users ∧
      ∃ user, users.lookup name = some user ∧ user.password.eq credentials password = some true) ↔
        ReadableEntries text ∧ CarriesPassword credentials config text name password := by
  have ran : (∃ users, (lines text.toList).foldlM (insertRpcauth fromHexError) config.user = .ok users) ↔
      ReadableEntries text := by
    simp only [foldlM_ok_iff, ReadableEntries, hexBytes_eq_some_iff]
  constructor
  · rintro ⟨users, run, user, found, isEqual⟩
    refine ⟨ran.mp ⟨users, run⟩, ?_⟩
    rcases lastEntry_or_none name.toList (lines text.toList) with ⟨salt, hash, last⟩ | none
    · obtain ⟨digest, decoded, isUser⟩ := lookup_of_lastEntry last run
      rw [isUser, Option.some.injEq] at found
      exact Or.inl ⟨salt, hash, last, (eq_rpcauthUser decoded).mp (found ▸ isEqual)⟩
    · exact Or.inr ⟨none, user, (lookup_of_noneTaken none run).symm.trans found, isEqual⟩
  · rintro ⟨readable, carries⟩
    obtain ⟨users, run⟩ := ran.mpr readable
    refine ⟨users, run, ?_⟩
    rcases carries with ⟨salt, hash, last, isHash⟩ | ⟨none, user, configured, isEqual⟩
    · obtain ⟨digest, decoded, isUser⟩ := lookup_of_lastEntry last run
      exact ⟨_, isUser, (eq_rpcauthUser decoded).mpr isHash⟩
    · exact ⟨user, (lookup_of_noneTaken none run).trans configured, isEqual⟩

end

/-- One entry for a name, none with blanks before the equals sign or with a comment after it, and
no line the proxy cannot read. -/
structure PlainlyWritten (text : String) : Prop where
  readable : ReadableEntries text
  plain : ∀ line ∈ lines text.toList, ∀ name salt hash,
    Bitcoind.rpcauth line = some (name, salt, hash) → PlainLine line name
  once : (lines text.toList).Pairwise fun first second => ∀ name salt hash otherSalt otherHash,
    TakesEntry first name salt hash → ¬TakesEntry second name otherSalt otherHash

theorem rpcauth_append_return (line : List Char) :
    Bitcoind.rpcauth (line ++ ['\r']) = Bitcoind.rpcauth line := by
  have kept : trim Bitcoind.isBlank ((line ++ ['\r']).takeWhile (· != '#')) =
      trim Bitcoind.isBlank (line.takeWhile (· != '#')) := by
    rw [List.takeWhile_append]
    split
    · rename_i whole
      rw [(List.takeWhile_prefix _).eq_of_length whole]
      exact trim_append_of_all (by simp [Bitcoind.isBlank]) line
    · rfl
  rw [Bitcoind.rpcauth, Bitcoind.rpcauth, Bitcoind.setting, Bitcoind.setting, kept]

theorem PlainlyWritten.carries {credentials : Credentials} {config : Config} {text name password : String}
    (plainly : PlainlyWritten text) (authenticated : Bitcoind.Authenticates credentials text name password) :
    CarriesPassword credentials config text name password := by
  obtain ⟨line, member, salt, _, isEntry, rfl⟩ := authenticated
  have nonempty : line ≠ [] := by
    rintro rfl
    have noEntry : Bitcoind.rpcauth [] = none := by decide
    simp [noEntry] at isEntry
  obtain ⟨read, isRead, same⟩ := mem_lines_of_mem_splitOn member nonempty
  have readEntry : Bitcoind.rpcauth read = Bitcoind.rpcauth line := by
    rcases same with rfl | rfl
    · rfl
    · exact (rpcauth_append_return read).symm
  rw [← readEntry] at isEntry
  have taken := (plainly.plain read isRead _ _ _ isEntry).takes isEntry
  obtain ⟨before, later, isLines⟩ := List.append_of_mem isRead
  refine Or.inl ⟨salt, _, ⟨before, read, later, isLines, taken, ?_⟩, toLower_hexChars _⟩
  have once := plainly.once
  rw [isLines] at once
  obtain ⟨_, fromRead, _⟩ := List.pairwise_append.mp once
  intro other isLater otherSalt otherHash
  exact (List.pairwise_cons.mp fromRead).1 other isLater _ _ _ _ _ taken

/-- A name and a password that bitcoind lets in are let in by the proxy exactly where it can read
its files and every line it takes an entry from, and the last of those for the name carries the
password, as is so in every plainly written file. -/
theorem passthrough_rpcauth_iff (credentials : Credentials)
    (readToString : String → Except AnyhowError String) (fromHexError : String → AnyhowError)
    (config : Config) (conf text name password : String)
    (given : config.passthroughRpcauth = some conf) (read : readToString conf = .ok text)
    (spares : CookieSpares readToString config.passthroughRpccookie name)
    (authenticated : Bitcoind.Authenticates credentials text name password) :
    ((∃ users, createUsers readToString fromHexError config = .ok users ∧
      users.Authenticates credentials name password) ↔
        CookieReadable readToString config.passthroughRpccookie ∧ ReadableEntries text ∧
          CarriesPassword credentials config text name password) ∧
    (CookieReadable readToString config.passthroughRpccookie → PlainlyWritten text →
      ∃ users, createUsers readToString fromHexError config = .ok users ∧
        users.Authenticates credentials name password) := by
  have exactly : (∃ users, createUsers readToString fromHexError config = .ok users ∧
      users.Authenticates credentials name password) ↔
        CookieReadable readToString config.passthroughRpccookie ∧ ReadableEntries text ∧
          CarriesPassword credentials config text name password := by
    rw [createUsers_authenticates_iff given read spares, foldlM_authenticates_iff]
  refine ⟨exactly, ?_⟩
  intro cookieReadable plainly
  exact exactly.mpr ⟨cookieReadable, plainly.readable, plainly.carries authenticated⟩

/-! Files of one user, whose password is "bar". -/

def barSalt : List Char :=
  hexChars [0xee, 0xf9, 0x09, 0xbe, 0xbf, 0x93, 0xe7, 0xcd, 0x1d, 0x71, 0x4a, 0xf9, 0xc3, 0xda, 0xf1, 0xf1]

def barDigest : List UInt8 :=
  [0xff, 0x91, 0x23, 0xdf, 0xba, 0x51, 0x64, 0x07, 0x05, 0xa0, 0xcd, 0x97, 0x7f, 0xaa, 0x98, 0x03,
   0x3f, 0x53, 0x7f, 0x59, 0x30, 0x94, 0x2b, 0x56, 0x6b, 0x44, 0x63, 0x9f, 0x8c, 0x63, 0x05, 0x7b]

def barEntry : List Char := entryText "alice".toList barSalt (hexChars barDigest)

def barCredentials : Credentials :=
  { cookiePassword := fun _ => none,
    hmacSha256 := fun key message =>
      if key = utf8Bytes (String.ofList barSalt) ∧ message = utf8Bytes "bar" then barDigest else [],
    base64Decode := fun text => Base64.decode text.toList }

def bitcoinConf : Config :=
  { user := [], passthroughRpcauth := some "bitcoin.conf", passthroughRpccookie := none,
    defaultFetchBlocks := false }

def readsText (text : List Char) (_ : String) : Except AnyhowError String := .ok (String.ofList text)

def fromHexErrorText (hash : String) : AnyhowError := ⟨[hash]⟩

theorem authenticates_bar {text line : List Char} (isLine : line ∈ text.splitOn '\n')
    (isEntry : Bitcoind.rpcauth line = some ("alice".toList, barSalt, hexChars barDigest)) :
    Bitcoind.Authenticates barCredentials (String.ofList text) "alice" "bar" := by
  rw [Bitcoind.Authenticates, String.toList_ofList]
  exact ⟨line, isLine, _, _, isEntry, by simp [barCredentials]⟩

/-- What the proxy says to alice's password, where it gets that far. -/
def answersBar (text : List Char) : Option Bool :=
  match (lines text).foldlM (insertRpcauth fromHexErrorText) [] with
  | .error _ => none
  | .ok users => (users.lookup "alice").bind fun user => user.password.eq barCredentials "bar"

theorem refused_of_answersBar {text : List Char} (refused : answersBar text ≠ some true) :
    ¬∃ users, createUsers (readsText text) fromHexErrorText bitcoinConf =
      .ok users ∧ users.Authenticates barCredentials "alice" "bar" := by
  have spares : CookieSpares (readsText text) bitcoinConf.passthroughRpccookie "alice" := by
    simp [CookieSpares, bitcoinConf]
  have read : readsText text "bitcoin.conf" = .ok (String.ofList text) := rfl
  rw [createUsers_authenticates_iff rfl read spares, String.toList_ofList]
  rintro ⟨_, users, run, user, found, isEqual⟩
  have ran : (lines text).foldlM (insertRpcauth fromHexErrorText) [] = .ok users := run
  rw [answersBar, ran] at refused
  simp only [found, Option.bind_some] at refused
  exact refused isEqual

def spacedConf : List Char := "rpcauth = ".toList ++ barEntry ++ ['\n']

def commentedConf : List Char := "rpcauth=".toList ++ barEntry ++ " # wallet\n".toList

def repeatedConf : List Char :=
  "rpcauth=".toList ++ barEntry ++ "\nrpcauth=".toList ++ entryText "alice".toList barSalt "00".toList

/-- bitcoind lets alice in, and the proxy builds no users that do. -/
def Missed (text : List Char) : Prop :=
  Bitcoind.Authenticates barCredentials (String.ofList text) "alice" "bar" ∧
    ¬∃ users, createUsers (readsText text) fromHexErrorText bitcoinConf = .ok users ∧
      users.Authenticates barCredentials "alice" "bar"

theorem missed_of_firstLine {text line : List Char} (isLine : line ∈ text.splitOn '\n')
    (isEntry : Bitcoind.rpcauth line = some ("alice".toList, barSalt, hexChars barDigest))
    (refused : answersBar text ≠ some true) : Missed text :=
  ⟨authenticates_bar isLine isEntry, refused_of_answersBar refused⟩

theorem passthrough_rpcauth_missed : Missed spacedConf ∧ Missed commentedConf ∧ Missed repeatedConf := by
  have spaced : "rpcauth = ".toList ++ barEntry ∈ spacedConf.splitOn '\n' := by decide +kernel
  have commented : "rpcauth=".toList ++ barEntry ++ " # wallet".toList ∈ commentedConf.splitOn '\n' := by
    decide +kernel
  have repeated : "rpcauth=".toList ++ barEntry ∈ repeatedConf.splitOn '\n' := by decide +kernel
  refine ⟨missed_of_firstLine spaced ?_ ?_, missed_of_firstLine commented ?_ ?_,
    missed_of_firstLine repeated ?_ ?_⟩
  all_goals decide +kernel

def plainConfLine : List Char := "rpcauth=".toList ++ barEntry

def plainConf : List Char := "# users\n".toList ++ plainConfLine ++ ['\n']

theorem plainConf_lines : lines (String.ofList plainConf).toList = ["# users".toList, plainConfLine] := by
  rw [String.toList_ofList]
  decide +kernel

theorem plainConf_takes {line name salt hash : List Char}
    (member : line ∈ lines (String.ofList plainConf).toList) (taken : TakesEntry line name salt hash) :
    hash = hexChars barDigest := by
  have onlyBar : ∀ line ∈ ["# users".toList, plainConfLine], ∀ entry ∈ rpcauthLine line,
      entry.2.2 = hexChars barDigest := by decide +kernel
  rw [plainConf_lines] at member
  exact onlyBar line member _ (rpcauthLine_eq_some_iff.mpr taken)

theorem plainConf_plainlyWritten : PlainlyWritten (String.ofList plainConf) := by
  constructor
  · intro line member name salt hash taken
    rw [plainConf_takes member taken, toLower_hexChars]
    exact ⟨barDigest, rfl⟩
  · intro line member name salt hash isEntry
    rw [plainConf_lines, List.mem_pair] at member
    rcases member with rfl | rfl
    · have noEntry : Bitcoind.rpcauth "# users".toList = none := by decide
      exact (Option.some_ne_none _ (isEntry.symm.trans noEntry)).elim
    · have isAlice : (Bitcoind.rpcauth plainConfLine).map Prod.fst = some "alice".toList := by decide +kernel
      rw [isEntry] at isAlice
      obtain rfl : name = "alice".toList := Option.some.inj isAlice
      exact ⟨by decide +kernel, ⟨[], barEntry, rfl, by simp⟩, by simp [isWhitespace]⟩
  · rw [plainConf_lines, List.pairwise_pair]
    intro name salt hash otherSalt otherHash taken
    have noEntry : rpcauthLine "# users".toList = none := by decide
    exact (Option.some_ne_none _ ((rpcauthLine_eq_some_iff.mpr taken).symm.trans noEntry)).elim

theorem passthrough_rpcauth_plain :
    ∃ users, createUsers (readsText plainConf) fromHexErrorText bitcoinConf =
      .ok users ∧ users.Authenticates barCredentials "alice" "bar" := by
  have isLine : plainConfLine ∈ plainConf.splitOn '\n' := by decide +kernel
  have isEntry : Bitcoind.rpcauth plainConfLine = some ("alice".toList, barSalt, hexChars barDigest) := by
    decide +kernel
  have carried := passthrough_rpcauth_iff barCredentials (readsText plainConf) fromHexErrorText bitcoinConf
    "bitcoin.conf" (String.ofList plainConf) "alice" "bar" rfl rfl (by simp [CookieSpares, bitcoinConf])
    (authenticates_bar isLine isEntry)
  exact carried.2 (by simp [CookieReadable, bitcoinConf]) plainConf_plainlyWritten

end BtcRpcProxy
