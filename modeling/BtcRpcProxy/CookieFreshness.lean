import BtcRpcProxy.AuthSourceCore
import BtcRpcProxy.Base64

/-!
Every header `try_load` returns is built from a version of the cookie file that was there at some
moment of the call. What carries it: an entry of the cache is stored against the mtime of a version
no newer than the one it was read from, so where that mtime is still that of the file, the two
versions are one.
-/

namespace BtcRpcProxy.CookieFile

open Interleaved

def Builds (base64Encode : List UInt8 → String) (version : Version) (header : HeaderValue) : Prop :=
  ∃ encoded, AuthSource.loadFromFile base64Encode version.contents = some encoded ∧
    parseHeaderValue ("Basic " ++ encoded) = .ok header

/-- The version was the file at the first moment, or became it between the two. -/
def CurrentBetween (first last : Moment) (version : Version) : Prop :=
  first.file = some version ∨ (version ∈ last.versions ∧ version ∉ first.versions)

/-- Read from a version that is no older than the one with this mtime. -/
def ReadFrom (base64Encode : List UInt8 → String) (versions : List Version) (mtime : Nat)
    (header : HeaderValue) : Prop :=
  ∃ version ∈ versions, mtime ≤ version.mtime ∧ Builds base64Encode version header

structure Good (base64Encode : List UInt8 → String) (shared : Shared) : Prop where
  ordered : shared.versions.Pairwise fun newer older => older.mtime < newer.mtime
  current : ∀ version, shared.file = some version → shared.versions.head? = some version
  cached : ∀ mtime header, shared.cached = some (mtime, header) →
    ReadFrom base64Encode shared.versions mtime header

structure Since (first : Moment) (shared : Shared) : Prop where
  known : ∀ version ∈ first.versions, version ∈ shared.versions
  file : ∀ version, shared.file = some version → CurrentBetween first shared.moment version

def Progress.Sound (base64Encode : List UInt8 → String) (shared : Shared) (first latest : Moment) :
    Progress → Prop
  | .started => True
  | .cacheRead cache => Since first shared ∧ ∀ mtime header, cache = some (mtime, header) →
      ReadFrom base64Encode shared.versions mtime header
  | .statted modified => Since first shared ∧ ∃ version ∈ shared.versions, version.mtime = modified
  | .loaded modified header => Since first shared ∧ ∃ version ∈ shared.versions,
      modified ≤ version.mtime ∧ Builds base64Encode version header ∧
        CurrentBetween first shared.moment version
  | .done result => ∀ header, result = .ok header → ∃ version,
      CurrentBetween first latest version ∧ Builds base64Encode version header

def Call.Sound (base64Encode : List UInt8 → String) (shared : Shared) (call : Call) : Prop :=
  call.progress.Sound base64Encode shared call.first call.latest

/-- How the file changes: what there was stays known, and what is the file was it or is new. -/
structure Follows (before after : Shared) : Prop where
  known : ∀ version ∈ before.versions, version ∈ after.versions
  file : ∀ version, after.file = some version →
    before.file = some version ∨ (version ∈ after.versions ∧ version ∉ before.versions)

theorem Since.follows {first : Moment} {before after : Shared} (since : Since first before)
    (follows : Follows before after) : Since first after := by
  refine ⟨fun version member => follows.known version (since.known version member), ?_⟩
  intro version isFile
  rcases follows.file version isFile with unchanged | ⟨isNew, notBefore⟩
  · rcases since.file version unchanged with atFirst | ⟨member, notFirst⟩
    · exact Or.inl atFirst
    · exact Or.inr ⟨follows.known version member, notFirst⟩
  · exact Or.inr ⟨isNew, fun atFirst => notBefore (since.known version atFirst)⟩

theorem ReadFrom.follows {base64Encode : List UInt8 → String} {before after : Shared} {mtime : Nat}
    {header : HeaderValue} (read : ReadFrom base64Encode before.versions mtime header)
    (follows : Follows before after) : ReadFrom base64Encode after.versions mtime header := by
  obtain ⟨version, member, facts⟩ := read
  exact ⟨version, follows.known version member, facts⟩

theorem CurrentBetween.follows {first : Moment} {before after : Shared} {version : Version}
    (current : CurrentBetween first before.moment version) (follows : Follows before after) :
    CurrentBetween first after.moment version := by
  rcases current with atFirst | ⟨member, notFirst⟩
  · exact Or.inl atFirst
  · exact Or.inr ⟨follows.known version member, notFirst⟩

theorem Call.Sound.follows {base64Encode : List UInt8 → String} {before after : Shared} {call : Call}
    (sound : call.Sound base64Encode before) (follows : Follows before after) :
    call.Sound base64Encode after := by
  obtain ⟨progress, first, latest⟩ := call
  cases progress with
  | started => trivial
  | cacheRead cache =>
      exact ⟨sound.1.follows follows, fun mtime header isCache => (sound.2 mtime header isCache).follows follows⟩
  | statted modified =>
      obtain ⟨since, version, member, isMtime⟩ := sound
      exact ⟨since.follows follows, version, follows.known version member, isMtime⟩
  | loaded modified header =>
      obtain ⟨since, version, member, notOlder, builds, current⟩ := sound
      exact ⟨since.follows follows, version, follows.known version member, notOlder, builds,
        current.follows follows⟩
  | done result => exact sound

theorem Follows.refl (shared : Shared) : Follows shared shared :=
  ⟨fun _ member => member, fun _ isFile => Or.inl isFile⟩

theorem follows_of_cached (shared : Shared) (cached : Option (Nat × HeaderValue)) :
    Follows shared { shared with cached } :=
  ⟨fun _ member => member, fun _ isFile => Or.inl isFile⟩

theorem since_first (shared : Shared) : Since shared.moment shared :=
  ⟨fun _ member => member, fun _ isFile => Or.inl isFile⟩

section

variable {base64Encode : List UInt8 → String} {path : String} {shared : Shared}

theorem mtime_le_current (good : Good base64Encode shared) {current version : Version}
    (isFile : shared.file = some current) (member : version ∈ shared.versions) :
    version.mtime ≤ current.mtime := by
  have head := good.current current isFile
  have ordered := good.ordered
  cases versions : shared.versions with
  | nil => simp [versions] at member
  | cons newest older =>
      rw [versions] at head member ordered
      obtain rfl : newest = current := by simpa using head
      rcases List.mem_cons.mp member with rfl | isOlder
      · exact Nat.le_refl _
      · exact Nat.le_of_lt (List.rel_of_pairwise_cons ordered isOlder)

theorem eq_current (good : Good base64Encode shared) {current version : Version}
    (isFile : shared.file = some current) (member : version ∈ shared.versions)
    (notOlder : current.mtime ≤ version.mtime) : version = current := by
  have head := good.current current isFile
  have ordered := good.ordered
  cases versions : shared.versions with
  | nil => simp [versions] at member
  | cons newest older =>
      rw [versions] at head member ordered
      obtain rfl : newest = current := by simpa using head
      rcases List.mem_cons.mp member with same | isOlder
      · exact same
      · have earlier := List.rel_of_pairwise_cons ordered isOlder
        omega

theorem mem_current (good : Good base64Encode shared) {current : Version}
    (isFile : shared.file = some current) : current ∈ shared.versions :=
  List.mem_of_mem_head? (good.current current isFile)

theorem load_builds {contents : List UInt8} {header : HeaderValue} {mtime : Nat}
    (loaded : load base64Encode path contents = .ok header) :
    Builds base64Encode { mtime, contents } header := by
  unfold load at loaded
  split at loaded
  · simp at loaded
  · rename_i encoded isEncoded
    cases parsed : parseHeaderValue ("Basic " ++ encoded) with
    | error error => simp [parsed, Except.mapError] at loaded
    | ok value =>
        rw [parsed] at loaded
        exact ⟨encoded, isEncoded, parsed.trans (congrArg _ (Except.ok.inj loaded))⟩

end

/-! One step of a call. -/

inductive Moves (base64Encode : List UInt8 → String) (path : String) (file : Option Version)
    (cached : Option (Nat × HeaderValue)) : Progress → Progress × Option (Nat × HeaderValue) → Prop
  | readCache : Moves base64Encode path file cached .started (.cacheRead cached, cached)
  | hit {header version} : file = some version → Moves base64Encode path file cached
      (.cacheRead (some (version.mtime, header))) (.done (.ok header), cached)
  | miss {cache version} : file = some version → Moves base64Encode path file cached
      (.cacheRead cache) (.statted version.mtime, cached)
  | load {modified version header} : file = some version →
      load base64Encode path version.contents = .ok header →
      Moves base64Encode path file cached (.statted modified) (.loaded modified header, cached)
  | writeCache {modified header} : Moves base64Encode path file cached (.loaded modified header)
      (.done (.ok header), some (modified, header))
  | fail {progress error} : Moves base64Encode path file cached progress (.done (.error error), cached)

theorem tryLoad_moves {base64Encode : List UInt8 → String} {path : String} {file : Option Version}
    {cached : Option (Nat × HeaderValue)} {progress : Progress} {event : Event}
    {moved : Progress × Option (Nat × HeaderValue)}
    (step : tryLoad base64Encode path file cached progress event = some moved) :
    Moves base64Encode path file cached progress moved := by
  cases event with
  | failed error =>
      cases progress with
      | cacheRead cache => exact Option.some.inj step ▸ .fail
      | statted modified => exact Option.some.inj step ▸ .fail
      | _ => simp [tryLoad] at step
  | proceed =>
      cases progress with
      | started => exact Option.some.inj step ▸ .readCache
      | cacheRead cache =>
          cases isFile : file with
          | none => cases cache <;> simp [tryLoad, isFile] at step
          | some version =>
              cases cache with
              | none =>
                  rw [isFile] at step
                  exact Option.some.inj step ▸ .miss rfl
              | some entry =>
                  obtain ⟨seen, header⟩ := entry
                  simp only [tryLoad, isFile] at step
                  split at step
                  · rename_i same
                    exact Option.some.inj step ▸ same ▸ .hit rfl
                  · exact Option.some.inj step ▸ .miss rfl
      | statted modified =>
          cases isFile : file with
          | none => simp [tryLoad, isFile] at step
          | some version =>
              simp only [tryLoad, isFile] at step
              split at step
              · rename_i header loaded
                exact Option.some.inj step ▸ .load rfl loaded
              · exact Option.some.inj step ▸ .fail
      | loaded modified header => exact Option.some.inj step ▸ .writeCache
      | done result => simp [tryLoad] at step

theorem moves_kept {base64Encode : List UInt8 → String} {path : String} {shared : Shared} {call : Call}
    {moved : Progress × Option (Nat × HeaderValue)} (good : Good base64Encode shared)
    (sound : call.Sound base64Encode shared)
    (moves : Moves base64Encode path shared.file shared.cached call.progress moved) :
    Good base64Encode { shared with cached := moved.2 } ∧
      (call.record shared moved.1).Sound base64Encode { shared with cached := moved.2 } := by
  obtain ⟨progress, first, latest⟩ := call
  cases moves with
  | readCache => exact ⟨good, since_first shared, good.cached⟩
  | hit isFile =>
      rename_i header version
      obtain ⟨since, read⟩ := sound
      refine ⟨good, ?_⟩
      rintro returned isHeader
      obtain ⟨source, member, notOlder, builds⟩ := read version.mtime header rfl
      obtain rfl := eq_current good isFile member notOlder
      exact ⟨source, since.file source isFile, Except.ok.inj isHeader ▸ builds⟩
  | miss isFile =>
      exact ⟨good, sound.1, _, mem_current good isFile, rfl⟩
  | load isFile loaded =>
      obtain ⟨since, statted, member, rfl⟩ := sound
      exact ⟨good, since, _, mem_current good isFile, mtime_le_current good isFile member,
        load_builds loaded, since.file _ isFile⟩
  | writeCache =>
      obtain ⟨since, version, member, notOlder, builds, current⟩ := sound
      refine ⟨⟨good.ordered, good.current, ?_⟩, ?_⟩
      · intro mtime header isCached
        simp only [Option.some.injEq, Prod.mk.injEq] at isCached
        obtain ⟨rfl, rfl⟩ := isCached
        exact ⟨version, member, notOlder, builds⟩
      · intro header isHeader
        exact ⟨version, current, Except.ok.inj isHeader ▸ builds⟩
  | fail => exact ⟨good, by simp [Call.Sound, Call.record, Progress.Sound]⟩

/-! Any number of calls. -/

theorem change_kept {base64Encode : List UInt8 → String} {shared after : Shared} {change : Change}
    (good : Good base64Encode shared) (changed : shared.change change = some after) :
    Good base64Encode after ∧ Follows shared after := by
  cases change with
  | remove =>
      rw [← Option.some.inj changed]
      exact ⟨⟨good.ordered, by simp, good.cached⟩, fun _ member => member, by simp⟩
  | replace version =>
      simp only [Shared.change] at changed
      split at changed
      · rename_i later
        rw [List.all_eq_true] at later
        have newer : ∀ old ∈ shared.versions, old.mtime < version.mtime := by simpa using later
        rw [← Option.some.inj changed]
        have follows : Follows shared
            { shared with file := some version, versions := version :: shared.versions } := by
          refine ⟨fun _ member => List.mem_cons_of_mem _ member, ?_⟩
          intro current isFile
          obtain rfl := Option.some.inj isFile
          exact Or.inr ⟨List.mem_cons_self, fun old => Nat.lt_irrefl _ (newer _ old)⟩
        refine ⟨⟨List.pairwise_cons.mpr ⟨newer, good.ordered⟩, ?_, ?_⟩, follows⟩
        · intro current isFile
          simpa using isFile
        · intro mtime header isCached
          exact (good.cached mtime header isCached).follows follows
      · simp at changed

theorem system_keeps (base64Encode : List UInt8 → String) (path : String) :
    (system base64Encode path).Keeps (Good base64Encode) (fun shared call => call.Sound base64Encode shared)
      Follows := by
  constructor
  · intro shared argument
    trivial
  · intro shared call event after next good sound step
    obtain ⟨moved, isMoved, same⟩ := Option.map_eq_some_iff.mp step
    obtain ⟨rfl, rfl⟩ := Prod.mk.inj same
    obtain ⟨stillGood, nextSound⟩ := moves_kept good sound (tryLoad_moves isMoved)
    exact ⟨stillGood, nextSound, follows_of_cached shared moved.2⟩
  · intro shared change after good changed
    exact change_kept good changed
  · intro shared after call follows sound
    exact sound.follows follows

def Call.returns (call : Call) : Bool :=
  match call.progress with
  | .done (.ok _) => true
  | _ => false

end BtcRpcProxy.CookieFile
