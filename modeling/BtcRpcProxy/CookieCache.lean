import BtcRpcProxy.CookieCacheCore
import BtcRpcProxy.Runs

/-!
Whether the cached cookie password belongs to the file version it is stored against.
The re-stat after the read takes the mtime of a version that was never read when the
file is replaced between the two, so this holds in the runs without such a replacement.
-/

namespace BtcRpcProxy.CookieCache

open Runs

theorem step_cases {state after : State} {action : Action} (taken : step state action = some after) :
    (∃ version, action = .replace version ∧
      (∀ old ∈ state.versions, old.mtime < version.mtime) ∧
      after = { state with file := some version, versions := version :: state.versions }) ∨
    (action = .remove ∧ after = { state with file := none }) ∨
    (action = .begin ∧ after =
      { state with calls := state.calls ++ [{ since := state.newest, progress := .started }] }) ∨
    (∃ index call progress cached, action = .advance index ∧ state.calls[index]? = some call ∧
      cookiePassword state.file state.cached call.progress = some (progress, cached) ∧
      after = { state with cached, calls := state.calls.set index { call with progress } }) := by
  cases action with
  | replace version =>
      simp only [step] at taken
      split at taken
      · rename_i later
        refine Or.inl ⟨version, rfl, ?_, (Option.some.inj taken).symm⟩
        simpa using later
      · simp at taken
  | remove => exact Or.inr (Or.inl ⟨rfl, (Option.some.inj taken).symm⟩)
  | begin => exact Or.inr (Or.inr (Or.inl ⟨rfl, (Option.some.inj taken).symm⟩))
  | advance index =>
      simp only [step] at taken
      cases found : state.calls[index]? with
      | none => simp [found] at taken
      | some call =>
          simp only [found] at taken
          cases moved : cookiePassword state.file state.cached call.progress with
          | none => simp [moved] at taken
          | some next =>
              simp only [moved] at taken
              exact Or.inr (Or.inr (Or.inr
                ⟨index, call, next.1, next.2, rfl, found, moved, (Option.some.inj taken).symm⟩))

def Gives (versions : List Version) (since : Nat) (password : String) : Prop :=
  ∃ version ∈ versions, since ≤ version.mtime ∧ passwordPart version.contents = some password

/-- What the cache is for: an entry against the mtime of the file is the password of
the file, and a call returns no password that was replaced before it started. -/
def FollowsFile (state : State) : Prop :=
  (∀ mtime password version, state.cached = some (mtime, password) → state.file = some version →
    version.mtime = mtime → passwordPart version.contents = some password) ∧
  ∀ call ∈ state.calls, ∀ password, call.progress = .done (some password) →
    Gives state.versions call.since password

def Progress.hasRead : Progress → Bool
  | .read _ => true
  | _ => false

/-- The file is not replaced while a call stands between its read and its re-stat. -/
def Undisturbed (state : State) : Action → Prop
  | .replace _ => ∀ call ∈ state.calls, call.progress.hasRead = false
  | _ => True

instance : DecidableRel Undisturbed := fun state action =>
  match action with
  | .replace _ => inferInstanceAs (Decidable (∀ call ∈ state.calls, call.progress.hasRead = false))
  | .remove | .begin | .advance _ => inferInstanceAs (Decidable True)

/-- What a call knows about the versions, at each point where it can stand. A
password that was read is still that of the newest version. -/
def Progress.Sound (versions : List Version) (since : Nat) : Progress → Prop
  | .started => True
  | .statted mtime => ∀ seen, mtime = some seen → since ≤ seen
  | .missed => True
  | .read password => ∃ version, versions.head? = some version ∧ since ≤ version.mtime ∧
      passwordPart version.contents = some password
  | .restatted mtime password => ∃ version ∈ versions, version.mtime = mtime ∧ since ≤ mtime ∧
      passwordPart version.contents = some password
  | .done result => ∀ password, result = some password → Gives versions since password

def CachedSound (versions : List Version) (cached : Option (Nat × String)) : Prop :=
  ∀ mtime password, cached = some (mtime, password) →
    ∃ version ∈ versions, version.mtime = mtime ∧ passwordPart version.contents = some password

structure Honest (state : State) : Prop where
  ordered : state.versions.Pairwise fun newer older => older.mtime < newer.mtime
  current : ∀ version, state.file = some version → state.versions.head? = some version
  cached : CachedSound state.versions state.cached
  calls : ∀ call ∈ state.calls, call.since ≤ state.newest ∧
    call.progress.Sound state.versions call.since

theorem initial_honest (file : Option Version) : Honest (initial file) := by
  cases file with
  | none =>
      refine ⟨List.Pairwise.nil, ?_, ?_, ?_⟩ <;> simp [initial, CachedSound]
  | some version =>
      refine ⟨List.pairwise_singleton _ _, ?_, ?_, ?_⟩ <;> simp [initial, CachedSound]

theorem Gives.cons {versions : List Version} {since : Nat} {password : String}
    (gives : Gives versions since password) (version : Version) :
    Gives (version :: versions) since password := by
  obtain ⟨old, member, newer, part⟩ := gives
  exact ⟨old, List.mem_cons_of_mem version member, newer, part⟩

theorem Progress.Sound.cons {versions : List Version} {since : Nat} {progress : Progress}
    (sound : progress.Sound versions since) (notRead : progress.hasRead = false)
    (version : Version) : progress.Sound (version :: versions) since := by
  cases progress with
  | started => trivial
  | statted mtime => exact sound
  | missed => trivial
  | read password => simp [Progress.hasRead] at notRead
  | restatted mtime password =>
      obtain ⟨old, member, rest⟩ := sound
      exact ⟨old, List.mem_cons_of_mem version member, rest⟩
  | done result => exact fun password returned => (sound password returned).cons version

theorem CachedSound.cons {versions : List Version} {cached : Option (Nat × String)}
    (sound : CachedSound versions cached) (version : Version) :
    CachedSound (version :: versions) cached := by
  intro mtime password stored
  obtain ⟨old, member, rest⟩ := sound mtime password stored
  exact ⟨old, List.mem_cons_of_mem version member, rest⟩

theorem newest_of_head {state : State} {version : Version}
    (head : state.versions.head? = some version) : state.newest = version.mtime := by
  simp [State.newest, head]

theorem newest_le_cons {state : State} {version : Version}
    (later : ∀ old ∈ state.versions, old.mtime < version.mtime) : state.newest ≤ version.mtime := by
  unfold State.newest
  cases versions : state.versions with
  | nil => simp
  | cons head rest =>
      have older := later head (by simp [versions])
      simpa using Nat.le_of_lt older

def Kept (versions : List Version) (since : Nat) (moved : Progress × Option (Nat × String)) : Prop :=
  moved.1.Sound versions since ∧ CachedSound versions moved.2

section

variable {state : State} {since : Nat} {moved : Progress × Option (Nat × String)}

theorem started_kept (honest : Honest state) (known : since ≤ state.newest)
    (step : cookiePassword state.file state.cached .started = some moved) :
    Kept state.versions since moved := by
  rw [← Option.some.inj step]
  refine ⟨?_, honest.cached⟩
  intro seen isSeen
  obtain ⟨version, present, rfl⟩ := Option.map_eq_some_iff.mp isSeen
  rw [← newest_of_head (honest.current version present)]
  exact known

theorem statted_kept {mtime : Option Nat} (honest : Honest state)
    (sound : (Progress.statted mtime).Sound state.versions since)
    (step : cookiePassword state.file state.cached (.statted mtime) = some moved) :
    Kept state.versions since moved := by
  simp only [cookiePassword] at step
  split at step
  · rename_i mtime seen password stored
    split at step
    · rename_i same
      rw [← Option.some.inj step]
      refine ⟨?_, honest.cached⟩
      intro returned isReturned
      obtain ⟨version, member, isSeen, part⟩ := honest.cached seen password stored
      have newer : since ≤ mtime := sound mtime rfl
      have isPassword : password = returned := Option.some.inj isReturned
      exact ⟨version, member, by omega, isPassword ▸ part⟩
    · rw [← Option.some.inj step]
      exact ⟨trivial, honest.cached⟩
  · rw [← Option.some.inj step]
    exact ⟨trivial, honest.cached⟩

theorem missed_kept (honest : Honest state) (known : since ≤ state.newest)
    (step : cookiePassword state.file state.cached .missed = some moved) :
    Kept state.versions since moved := by
  simp only [cookiePassword] at step
  split at step
  · rw [← Option.some.inj step]
    exact ⟨by simp [Progress.Sound], honest.cached⟩
  · rename_i version present
    have head := honest.current version present
    split at step
    · rw [← Option.some.inj step]
      exact ⟨by simp [Progress.Sound], honest.cached⟩
    · rename_i password part
      rw [← Option.some.inj step]
      exact ⟨⟨version, head, newest_of_head head ▸ known, part⟩, honest.cached⟩

theorem read_kept {password : String} (honest : Honest state)
    (sound : (Progress.read password).Sound state.versions since)
    (step : cookiePassword state.file state.cached (.read password) = some moved) :
    Kept state.versions since moved := by
  obtain ⟨version, head, newer, part⟩ := sound
  have member : version ∈ state.versions := List.mem_of_mem_head? head
  simp only [cookiePassword] at step
  split at step
  · rw [← Option.some.inj step]
    refine ⟨?_, honest.cached⟩
    intro returned isReturned
    exact ⟨version, member, newer, Option.some.inj isReturned ▸ part⟩
  · rename_i file present
    have same : file = version := Option.some.inj ((honest.current file present).symm.trans head)
    rw [← Option.some.inj step, same]
    exact ⟨⟨version, member, rfl, newer, part⟩, honest.cached⟩

theorem restatted_kept {mtime : Nat} {password : String}
    (sound : (Progress.restatted mtime password).Sound state.versions since)
    (step : cookiePassword state.file state.cached (.restatted mtime password) = some moved) :
    Kept state.versions since moved := by
  obtain ⟨version, member, isMtime, newer, part⟩ := sound
  rw [← Option.some.inj step]
  constructor
  · intro returned isReturned
    exact ⟨version, member, isMtime ▸ newer, Option.some.inj isReturned ▸ part⟩
  · intro seen stored isStored
    simp only [Option.some.injEq, Prod.mk.injEq] at isStored
    obtain ⟨rfl, rfl⟩ := isStored
    exact ⟨version, member, isMtime, part⟩

theorem cookiePassword_kept {progress : Progress} (honest : Honest state) (known : since ≤ state.newest)
    (sound : progress.Sound state.versions since)
    (step : cookiePassword state.file state.cached progress = some moved) :
    Kept state.versions since moved := by
  cases progress with
  | started => exact started_kept honest known step
  | statted mtime => exact statted_kept honest sound step
  | missed => exact missed_kept honest known step
  | read password => exact read_kept honest sound step
  | restatted mtime password => exact restatted_kept sound step
  | done result => simp [cookiePassword] at step

end

theorem step_honest {state after : State} {action : Action} (honest : Honest state)
    (undisturbed : Undisturbed state action) (taken : step state action = some after) :
    Honest after := by
  obtain ⟨version, rfl, later, rfl⟩ | ⟨rfl, rfl⟩ | ⟨rfl, rfl⟩ |
    ⟨index, call, progress, cached, rfl, found, moved, rfl⟩ := step_cases taken
  · refine ⟨List.pairwise_cons.mpr ⟨later, honest.ordered⟩, by simp, honest.cached.cons version, ?_⟩
    intro call member
    obtain ⟨known, sound⟩ := honest.calls call member
    exact ⟨Nat.le_trans known (newest_le_cons later), sound.cons (undisturbed call member) version⟩
  · exact ⟨honest.ordered, by simp, honest.cached, honest.calls⟩
  · refine ⟨honest.ordered, honest.current, honest.cached, ?_⟩
    intro call member
    rcases List.mem_append.mp member with old | new
    · exact honest.calls call old
    · rw [List.mem_singleton.mp new]
      exact ⟨Nat.le_refl _, trivial⟩
  · obtain ⟨known, sound⟩ := honest.calls call (List.mem_of_getElem? found)
    obtain ⟨nextSound, cachedSound⟩ := cookiePassword_kept honest known sound moved
    refine ⟨honest.ordered, honest.current, cachedSound, ?_⟩
    intro other member
    rcases List.mem_or_eq_of_mem_set member with old | same
    · exact honest.calls other old
    · rw [same]
      exact ⟨known, nextSound⟩

theorem Honest.followsFile {state : State} (honest : Honest state) : FollowsFile state := by
  constructor
  · intro mtime password version stored present isMtime
    obtain ⟨old, member, oldMtime, part⟩ := honest.cached mtime password stored
    have head := honest.current version present
    cases versions : state.versions with
    | nil => simp [versions] at head
    | cons newest rest =>
        have ordered := honest.ordered
        rw [versions] at ordered head member
        have isNewest : newest = version := by simpa using head
        rcases List.mem_cons.mp member with same | earlier
        · rw [← isNewest, ← same]
          exact part
        · have older := (List.pairwise_cons.mp ordered).1 old earlier
          rw [isNewest] at older
          omega
  · intro call member password returned
    have sound := (honest.calls call member).2
    rw [returned] at sound
    exact sound password rfl

/-- In a run that never replaces the file between a read and the re-stat after it,
the cache follows the file in every state. -/
theorem followsFile_of_undisturbed (file : Option Version) (state : State)
    (reached : Reachable (· = initial file) (restrict Undisturbed (ofStep step)) state) :
    FollowsFile state := by
  refine Honest.followsFile (Reachable.invariant reached ?_ ?_)
  · intro start isInitial
    exact isInitial ▸ initial_honest file
  · intro before action after honest taken
    exact step_honest honest taken.1 taken.2

theorem followsFile_of_undisturbed_replacement :
    FollowsFile {
      file := some ⟨2, "__cookie__:second\n"⟩
      versions := [⟨2, "__cookie__:second\n"⟩, ⟨1, "__cookie__:first\n"⟩]
      cached := some (2, "second")
      calls := [⟨1, .done (some "first")⟩, ⟨2, .done (some "second")⟩]
    } :=
  followsFile_of_undisturbed (some ⟨1, "__cookie__:first\n"⟩) _
    (reachable_of_restricted_run _ [.begin, .advance 0, .advance 0, .advance 0, .advance 0,
      .advance 0, .replace ⟨2, "__cookie__:second\n"⟩, .begin, .advance 1, .advance 1, .advance 1,
      .advance 1, .advance 1] (by decide))

/-- The file is replaced between the read and the re-stat of one comparison: the old
password is cached against the new mtime, and a later comparison accepts it. -/
theorem replaced_between_read_and_restat :
    ∃ state, Reachable (· = initial (some ⟨1, "__cookie__:first\n"⟩)) (ofStep step) state ∧
      state.file = some ⟨2, "__cookie__:second\n"⟩ ∧ state.cached = some (2, "first") ∧
      (∃ call ∈ state.calls, call.since = 2 ∧ call.progress = .done (some "first")) ∧
      ¬FollowsFile state := by
  let stale : State := {
    file := some ⟨2, "__cookie__:second\n"⟩
    versions := [⟨2, "__cookie__:second\n"⟩, ⟨1, "__cookie__:first\n"⟩]
    cached := some (2, "first")
    calls := [⟨1, .done (some "first")⟩, ⟨2, .done (some "first")⟩]
  }
  have reached : Reachable (· = initial (some ⟨1, "__cookie__:first\n"⟩)) (ofStep step) stale :=
    reachable_of_run _ [.begin, .advance 0, .advance 0, .advance 0,
      .replace ⟨2, "__cookie__:second\n"⟩, .advance 0, .advance 0, .begin, .advance 1, .advance 1]
      (by decide)
  refine ⟨stale, reached, rfl, rfl, ⟨⟨2, .done (some "first")⟩, by decide, rfl, rfl⟩, ?_⟩
  intro follows
  have part := follows.1 2 "first" ⟨2, "__cookie__:second\n"⟩ rfl rfl rfl
  exact absurd part (by decide)

end BtcRpcProxy.CookieCache
