import BtcRpcProxy.PassthroughRpcauth

/-!
Who can log in: the one entry that `create_state` gives a name, of the configuration and the two files it
may read, and the headers that `Users::get` takes for it.
-/

namespace BtcRpcProxy

open TextLines

def rpccookieUser (conf : String) : InputUser :=
  { password := .cookieFile conf, allowedCalls := none, fetchBlocks := none, overrideWallet := none }

/-- No line of the rpcauth file, if there is one, has an entry for the name. -/
def RpcauthSpares (readToString : String → Except AnyhowError String) (passthroughRpcauth : Option String)
    (name : String) : Prop :=
  ∀ conf text, passthroughRpcauth = some conf → readToString conf = .ok text →
    ∀ line ∈ lines text.toList, ∀ salt hash, ¬TakesEntry line name.toList salt hash

/-- The entry of a name: from any line of the cookie file, or else from the last of the rpcauth file that is
for it, or else as it is configured. -/
inductive EntryOf (readToString : String → Except AnyhowError String) (config : Config) (name : String) :
    InputUser → Prop
  | rpccookie {conf text : String} {line rest : List Char} : config.passthroughRpccookie = some conf →
      readToString conf = .ok text → line ∈ lines text.toList → rpccookieLine line = some (name.toList, rest) →
      EntryOf readToString config name (rpccookieUser conf)
  | rpcauth {conf text : String} {salt hash : List Char} {digest : List UInt8} :
      CookieSpares readToString config.passthroughRpccookie name → config.passthroughRpcauth = some conf →
      readToString conf = .ok text → LastEntry name.toList (lines text.toList) salt hash →
      hexBytes hash = some digest → EntryOf readToString config name (rpcauthUser salt digest)
  | configured {user : InputUser} : CookieSpares readToString config.passthroughRpccookie name →
      RpcauthSpares readToString config.passthroughRpcauth name → config.user.lookup name = some user →
      EntryOf readToString config name user

section

variable {readToString : String → Except AnyhowError String} {fromHexError : String → AnyhowError}
  {config : Config} {users after : List (String × InputUser)} {name : String}

/-! The two files. -/

theorem lookup_of_rpccookieLine {conf : String} {read : List (List Char)}
    (named : ∃ line ∈ read, ∃ rest, rpccookieLine line = some (name.toList, rest)) :
    (read.foldl (insertRpccookie conf) users).lookup name = some (rpccookieUser conf) := by
  induction read generalizing users with
  | nil => simp at named
  | cons line later ih =>
      rw [List.foldl_cons]
      by_cases again : ∃ line ∈ later, ∃ rest, rpccookieLine line = some (name.toList, rest)
      · exact ih again
      · obtain ⟨first, member, rest, isLine⟩ := named
        rcases List.mem_cons.mp member with rfl | inLater
        · have others : ∀ line ∈ later, ∀ rest, rpccookieLine line ≠ some (name.toList, rest) :=
            fun line member rest isLine => again ⟨line, member, rest, isLine⟩
          rw [lookup_insertRpccookie others, insertRpccookie, isLine]
          simp only
          rw [lookup_insertUser, String.ofList_toList, if_pos rfl]
          rfl
        · exact absurd ⟨first, inLater, rest, isLine⟩ again

theorem lookup_of_addRpccookie {conf text : String} {line rest : List Char} (read : readToString conf = .ok text)
    (member : line ∈ lines text.toList) (isLine : rpccookieLine line = some (name.toList, rest))
    (added : addRpccookie readToString users (some conf) = .ok after) :
    after.lookup name = some (rpccookieUser conf) := by
  rw [addRpccookie, read, Except.ok.injEq] at added
  rw [← added]
  exact lookup_of_rpccookieLine ⟨line, member, rest, isLine⟩

theorem foldlM_of_addRpcauth {conf text : String} (read : readToString conf = .ok text)
    (added : addRpcauth readToString fromHexError users (some conf) = .ok after) :
    (lines text.toList).foldlM (insertRpcauth fromHexError) users = .ok after := by
  rwa [addRpcauth, read] at added

theorem lookup_addRpcauth {passthroughRpcauth : Option String}
    (spares : RpcauthSpares readToString passthroughRpcauth name)
    (added : addRpcauth readToString fromHexError users passthroughRpcauth = .ok after) :
    after.lookup name = users.lookup name := by
  cases passthroughRpcauth with
  | none => rw [Except.ok.inj added]
  | some conf =>
      cases read : readToString conf with
      | error error => simp [addRpcauth, read] at added
      | ok text => exact lookup_of_noneTaken (spares conf text rfl read) (foldlM_of_addRpcauth read added)

/-! The entry of a name. -/

theorem lookup_of_entry {authed : List (String × InputUser)} {input : InputUser}
    (isEntry : EntryOf readToString config name input)
    (rpcauth : addRpcauth readToString fromHexError config.user config.passthroughRpcauth = .ok authed)
    (rpccookie : addRpccookie readToString authed config.passthroughRpccookie = .ok after) :
    after.lookup name = some input := by
  cases isEntry with
  | rpccookie given read member isLine =>
      rw [given] at rpccookie
      exact lookup_of_addRpccookie read member isLine rpccookie
  | rpcauth spares given read last decoded =>
      rw [given] at rpcauth
      obtain ⟨digest, isDigest, found⟩ := lookup_of_lastEntry last (foldlM_of_addRpcauth read rpcauth)
      rw [lookup_addRpccookie spares rpccookie, found, Option.some.inj (isDigest.symm.trans decoded)]
  | configured spares others isUser =>
      rw [lookup_addRpccookie spares rpccookie, lookup_addRpcauth others rpcauth, isUser]

theorem entry_of_rpcauth {authed : List (String × InputUser)} {input : InputUser}
    (spares : CookieSpares readToString config.passthroughRpccookie name)
    (rpcauth : addRpcauth readToString fromHexError config.user config.passthroughRpcauth = .ok authed)
    (found : authed.lookup name = some input) : EntryOf readToString config name input := by
  by_cases others : RpcauthSpares readToString config.passthroughRpcauth name
  · rw [lookup_addRpcauth others rpcauth] at found
    exact .configured spares others found
  · simp only [RpcauthSpares, not_forall, not_not] at others
    obtain ⟨conf, text, given, read, line, member, salt, hash, taken⟩ := others
    rw [given] at rpcauth
    have run := foldlM_of_addRpcauth read rpcauth
    rcases lastEntry_or_none name.toList (lines text.toList) with ⟨salt, hash, last⟩ | none
    · obtain ⟨digest, decoded, isUser⟩ := lookup_of_lastEntry last run
      rw [isUser, Option.some.injEq] at found
      exact found ▸ .rpcauth spares given read last decoded
    · exact absurd taken (none line member salt hash)

theorem entry_of_lookup {authed : List (String × InputUser)} {input : InputUser}
    (rpcauth : addRpcauth readToString fromHexError config.user config.passthroughRpcauth = .ok authed)
    (rpccookie : addRpccookie readToString authed config.passthroughRpccookie = .ok after)
    (found : after.lookup name = some input) : EntryOf readToString config name input := by
  by_cases spares : CookieSpares readToString config.passthroughRpccookie name
  · rw [lookup_addRpccookie spares rpccookie] at found
    exact entry_of_rpcauth spares rpcauth found
  · simp only [CookieSpares, not_forall, ne_eq, not_not] at spares
    obtain ⟨conf, text, given, read, line, member, rest, isLine⟩ := spares
    rw [given] at rpccookie
    rw [lookup_of_addRpccookie read member isLine rpccookie, Option.some.injEq] at found
    exact found ▸ .rpccookie given read member isLine

theorem createUsers_lookup_iff {users : Users} (built : createUsers readToString fromHexError config = .ok users)
    (user : User) : users.lookup name = some user ↔
      ∃ input, EntryOf readToString config name input ∧ input.mapDefault config.defaultFetchBlocks = user := by
  unfold createUsers at built
  split at built
  · simp at built
  · rename_i authed rpcauth
    split at built
    · simp at built
    · rename_i after rpccookie
      rw [Except.ok.injEq] at built
      rw [← built, lookup_mapDefault, Option.map_eq_some_iff]
      refine exists_congr fun input => and_congr_left fun _ => ?_
      exact ⟨entry_of_lookup rpcauth rpccookie, fun isEntry => lookup_of_entry isEntry rpcauth rpccookie⟩

end

theorem get_eq_some_iff {users : Users} {credentials : Credentials} {header : HeaderValue} {name : String}
    {user : User} : users.get credentials header = some (some (name, user)) ↔
      ∃ given, readCredentials credentials header = some (name, given) ∧ users.lookup name = some user ∧
        user.password.eq credentials given = some true := by
  unfold Users.get
  cases isRead : readCredentials credentials header with
  | none => simp
  | some pair =>
      obtain ⟨written, given⟩ := pair
      simp only
      cases found : users.lookup written with
      | none =>
          simp only [Option.some.injEq, reduceCtorEq, Prod.mk.injEq, false_iff, not_exists, not_and]
          rintro other ⟨rfl, _⟩ isUser
          simp [found] at isUser
      | some entry =>
          simp only [Option.map_eq_some_iff, Option.some.injEq, Prod.mk.injEq]
          constructor
          · rintro ⟨isEqual, compared, isGot⟩
            split at isGot
            · rename_i equal
              simp only [Option.some.injEq, Prod.mk.injEq] at isGot
              obtain ⟨rfl, rfl⟩ := isGot
              exact ⟨given, ⟨rfl, rfl⟩, found, equal ▸ compared⟩
            · simp at isGot
          · rintro ⟨other, ⟨rfl, rfl⟩, isUser, compared⟩
            obtain rfl := Option.some.inj (found.symm.trans isUser)
            exact ⟨true, compared, rfl⟩

/-- A header logs in exactly under the name it carries, as the entry of that name, with a password the entry
takes at that moment. -/
theorem createUsers_get_iff (readToString : String → Except AnyhowError String)
    (fromHexError : String → AnyhowError) (config : Config) (users : Users)
    (built : createUsers readToString fromHexError config = .ok users) (credentials : Credentials)
    (header : HeaderValue) (name : String) (user : User) :
    users.get credentials header = some (some (name, user)) ↔
      ∃ given input, readCredentials credentials header = some (name, given) ∧
        EntryOf readToString config name input ∧ input.mapDefault config.defaultFetchBlocks = user ∧
        input.password.eq credentials given = some true := by
  rw [get_eq_some_iff]
  constructor
  · rintro ⟨given, read, found, isEqual⟩
    obtain ⟨input, isEntry, rfl⟩ := (createUsers_lookup_iff built user).mp found
    exact ⟨given, input, read, isEntry, rfl, isEqual⟩
  · rintro ⟨given, input, read, isEntry, rfl, isEqual⟩
    exact ⟨given, read, (createUsers_lookup_iff built _).mpr ⟨input, isEntry, rfl⟩, isEqual⟩

/-! A name that is configured too, and a node that was started again since. -/

def cookieConfig : Config :=
  { user := [("__cookie__",
      { password := .cleartext "configured", allowedCalls := some [], fetchBlocks := none, overrideWallet := none })],
    passthroughRpcauth := none, passthroughRpccookie := some ".cookie", defaultFetchBlocks := true }

def startedAgain : Credentials :=
  { base64Credentials with cookiePassword := fun _ => passwordPart "__cookie__:second\n" }

theorem createUsers_get_startedAgain :
    ∃ users, createUsers (fun _ => .ok "__cookie__:first\n") (fun hash => ⟨[hash]⟩) cookieConfig = .ok users ∧
      users.get startedAgain (utf8Bytes ("Basic " ++ base64Encode (utf8Bytes ("__cookie__" ++ ":" ++ "second")))) =
        some (some ("__cookie__", (rpccookieUser ".cookie").mapDefault true)) := by
  refine ⟨_, rfl, ?_⟩
  refine (createUsers_get_iff (fun _ => .ok "__cookie__:first\n") (fun hash => ⟨[hash]⟩) cookieConfig _ rfl
    startedAgain _ _ _).mpr ⟨"second", rpccookieUser ".cookie", ?_, ?_, rfl, by decide +kernel⟩
  · have encoded : startedAgain.EncodedBy base64Encode :=
      ⟨base64Credentials_encoded.decodes, base64Credentials_encoded.visible⟩
    exact readCredentials_written encoded (by decide) "second"
  · exact @EntryOf.rpccookie _ _ _ ".cookie" "__cookie__:first\n" "__cookie__:first".toList "first".toList rfl rfl
      (by decide +kernel) (by decide +kernel)

end BtcRpcProxy
