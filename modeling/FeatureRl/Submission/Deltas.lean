import FeatureRl.Contracts.Values
import FeatureRl.Environments.Archives
import FeatureRl.Lib.Checked

/-!
Source deltas: the rules for what a submission may change, the delta of a workspace against its
baseline, and the archive that a delta gives when it is applied to the baseline.
-/

namespace FeatureRl

namespace Submission

open Archives Checked

inductive Failure where
  | rejected (message : String)
  | integrity (message : String)
  | sizeLimit
  | validation
  | notFound
deriving DecidableEq, Repr

/-! ### Rules -/

inductive Dependencies where
  | forbidden
  | pinnedAllowlist
deriving DecidableEq, Repr

structure AllowedChanges where
  sourceRoots : List String
  forbiddenPaths : List String
  dependencies : Dependencies
  dependencyArtifacts : List ArtifactRef
  additionalArtifactTypes : List String
  rooted : sourceRoots ≠ []

/-- What a runtime profile of either family says about changes. -/
structure Profile where
  command : Bool
  sourceRoots : List String

structure SandboxPolicy where
  limits : Policy
  profile : Profile

/-- The path is the root, or below it. -/
def under (path root : String) : Bool := path = root || (root.toList ++ ['/']).isPrefixOf path.toList

section

local instance lawfulPart : LawfulBEq (List Char) := inferInstance

def cached (path : String) : Bool := ".pytest_cache".toList ∈ Paths.split path.toList

end

def changePath (rules : AllowedChanges) (path : String) : Except Failure Unit := do
  refuse (safePath path ≠ some path) (.rejected "ambiguous source path")
  refuse (cached path = true) (.rejected "unauthorized pytest cache change")
  refuse (rules.sourceRoots.any (under path) = false) (.rejected "outside source roots")
  refuse (rules.forbiddenPaths.any (under path) = true) (.rejected "forbidden path")

def validateRules (rules : AllowedChanges) : Except Failure Unit := do
  refuse (rules.additionalArtifactTypes ≠ [] ∨
      (rules.dependencies = .forbidden ∧ rules.dependencyArtifacts ≠ []) ∨ ¬ rules.dependencyArtifacts.Nodup ∨
      ∃ ref ∈ rules.dependencyArtifacts, ref.kind.val ≠ "dependency-wheel" ∨ ref.encoding ≠ .bytes)
    (.rejected "unsupported dependency/artifact policy")
  refuse (¬ rules.sourceRoots.Nodup) (.rejected "duplicate roots")
  checkAll (fun path => refuse (safePath path ≠ some path) (.rejected "ambiguous rule path"))
    (rules.sourceRoots ++ rules.forbiddenPaths)

/-- A runtime profile also binds the kinds of the artifacts, a command profile has none of them. -/
def validateAllowedChanges (profile : Profile) (rules : AllowedChanges) : Except Failure Unit := do
  if profile.command then
    refuse (rules.dependencyArtifacts ≠ [])
      (.rejected "command toolchain dependency changes require a new frozen repository resolution")
  else
    refuse (rules.dependencies = .forbidden ∧ rules.dependencyArtifacts ≠ [])
      (.rejected "forbidden dependency policy supplies dependency artifacts")
    refuse (∃ ref ∈ rules.dependencyArtifacts, ref.kind.val ≠ "dependency-wheel")
      (.rejected "dependency changes require frozen wheel artifacts")
  checkAll (fun root => refuse (safePath root ≠ some root ∨ profile.sourceRoots.any (under root) = false)
    (.rejected (if profile.command then "source change root is outside the repository toolchain profile"
      else "source change root is outside the repository profile"))) rules.sourceRoots
  checkAll (fun path => refuse (if profile.command then safePath path = none else safePath path ≠ some path)
    (.rejected "noncanonical forbidden source path")) rules.forbiddenPaths

/-- A change of the path is within the rules. -/
structure Permitted (roots forbidden : List String) (path : String) : Prop where
  uncached : cached path = false
  rooted : roots.any (under path) = true
  free : forbidden.any (under path) = false

theorem changePath_eq_ok {rules : AllowedChanges} {path : String} {result : Unit} :
    changePath rules path = .ok result ↔
      safePath path = some path ∧ Permitted rules.sourceRoots rules.forbiddenPaths path := by
  simp only [changePath, bind_eq_ok, refuse_eq_ok]
  constructor
  · rintro ⟨_, safe, _, uncached, _, rooted, free⟩
    exact ⟨Decidable.not_not.mp safe, Bool.eq_false_of_not_eq_true uncached, Bool.eq_true_of_not_eq_false rooted,
      Bool.eq_false_of_not_eq_true free⟩
  · rintro ⟨safe, permitted⟩
    exact ⟨(), by simp [safe], (), by simp [permitted.uncached], (), by simp [permitted.rooted],
      by simp [permitted.free]⟩

theorem safe_of_validateRules {rules : AllowedChanges} {result : Unit} (valid : validateRules rules = .ok result) :
    ∀ path ∈ rules.sourceRoots ++ rules.forbiddenPaths, safePath path = some path := by
  simp only [validateRules, bind_eq_ok, refuse_eq_ok] at valid
  obtain ⟨_, _, _, _, paths⟩ := valid
  intro path member
  exact Decidable.not_not.mp (refuse_eq_ok.mp (checkAll_eq_ok.mp paths path member))

/-! ### Changes against a baseline -/

def changedName (archive baseline : SourceArchive) (roots forbidden : List String) (name : String) :
    Except Failure Unit :=
  if archive.files.get? name = baseline.files.get? name then .ok ()
  else do
    refuse (cached name = true) (.rejected ("unauthorized pytest cache change: " ++ name))
    refuse (roots.any (under name) = false) (.rejected ("change outside allowed source roots: " ++ name))
    refuse (forbidden.any (under name) = true) (.rejected ("forbidden source change: " ++ name))

def validateChanges (archive baseline : SourceArchive) (roots forbidden : List String) : Except Failure Unit := do
  let roots ← require (roots.mapM safePath) (.rejected "source path")
  let forbidden ← require (forbidden.mapM safePath) (.rejected "source path")
  refuse (roots = []) (.rejected "source change roots required")
  checkAll (changedName archive baseline roots forbidden) (archive.files.keys ++ baseline.files.keys)

/-- Every change of the archive against the baseline is within the rules. -/
def ChangesPermitted (archive baseline : SourceArchive) (rules : AllowedChanges) : Prop :=
  ∀ name, archive.files.get? name ≠ baseline.files.get? name →
    Permitted rules.sourceRoots rules.forbiddenPaths name

theorem changedName_eq_ok {archive baseline : SourceArchive} {roots forbidden : List String} {name : String}
    {result : Unit} : changedName archive baseline roots forbidden name = .ok result ↔
      (archive.files.get? name ≠ baseline.files.get? name → Permitted roots forbidden name) := by
  rw [changedName]
  by_cases same : archive.files.get? name = baseline.files.get? name
  · rw [if_pos same]
    exact ⟨fun _ different => absurd same different, fun _ => rfl⟩
  · rw [if_neg same]
    simp only [bind_eq_ok, refuse_eq_ok]
    constructor
    · rintro ⟨_, uncached, _, rooted, free⟩ _
      exact ⟨Bool.eq_false_of_not_eq_true uncached, Bool.eq_true_of_not_eq_false rooted,
        Bool.eq_false_of_not_eq_true free⟩
    · intro permitted
      have permitted := permitted same
      exact ⟨(), by simp [permitted.uncached], (), by simp [permitted.rooted], by simp [permitted.free]⟩

theorem mapM_safePath {paths : List String} (safe : ∀ path ∈ paths, safePath path = some path) :
    paths.mapM safePath = some paths := by
  induction paths with
  | nil => rfl
  | cons path rest ih =>
      rw [List.mapM_cons, safe path List.mem_cons_self, ih fun other member => safe other (List.mem_cons_of_mem _ member)]
      rfl

theorem validateChanges_eq_ok {archive baseline : SourceArchive} {rules : AllowedChanges} {result : Unit}
    (safe : ∀ path ∈ rules.sourceRoots ++ rules.forbiddenPaths, safePath path = some path) :
    validateChanges archive baseline rules.sourceRoots rules.forbiddenPaths = .ok result ↔
      ChangesPermitted archive baseline rules := by
  have roots := mapM_safePath fun path member => safe path (List.mem_append_left rules.forbiddenPaths member)
  have forbidden := mapM_safePath fun path member => safe path (List.mem_append_right rules.sourceRoots member)
  simp only [validateChanges, bind_eq_ok, require_eq_ok, refuse_eq_ok, checkAll_eq_ok, roots, forbidden, Option.some.injEq]
  constructor
  · rintro ⟨_, rfl, _, rfl, _, _, names⟩
    intro name different
    refine changedName_eq_ok.mp (names name ?_) different
    by_contra outside
    rw [List.mem_append, not_or, ← Dict.get?_eq_none, ← Dict.get?_eq_none] at outside
    exact different (outside.1.trans outside.2.symm)
  · intro permitted
    exact ⟨_, rfl, _, rfl, (), rules.rooted, fun name _ => changedName_eq_ok.mpr (permitted name)⟩

/-! ### Cache metadata of the test runner -/

def metadata : List String :=
  [".gitignore", "CACHEDIR.TAG", "README.md", "v/cache/nodeids", "v/cache/lastfailed", "v/cache/stepwise"]

/-- New ordinary metadata below the first cache directory of a path. -/
def transient (baseline : SourceArchive) (name : String) (entry : SourceFile) : Bool :=
  let parts := Paths.split name.toList
  if name ∈ baseline.files.keys ∨ entry.executable = true ∨ cached name = false then false
  else String.ofList (Paths.join (parts.drop (parts.idxOf ".pytest_cache".toList + 1))) ∈ metadata

def withoutPytestCache (archive baseline : SourceArchive) : SourceArchive :=
  ⟨archive.files.filter fun name entry => !transient baseline name entry⟩

theorem transient_of_present {baseline : SourceArchive} {name : String} (present : name ∈ baseline.files.keys)
    (entry : SourceFile) : transient baseline name entry = false := by
  rw [transient, if_pos (Or.inl present)]

/-! ### Applying a delta -/

variable {Tar : Type}

def canonicalMember (item : Member) : Except Failure Unit :=
  refuse (item.kind ≠ .file ∨ safePath item.name ≠ some item.name) (.rejected "noncanonical delta member")

def removeFile (rules : AllowedChanges) (baseline changes : SourceArchive) (result : Dict String SourceFile)
    (name : String) : Except Failure (Dict String SourceFile) := do
  changePath rules name
  refuse (name ∉ baseline.files.keys ∨ name ∈ changes.files.keys) (.rejected "missing or contradictory deletion")
  .ok (result.erase name)

def takeFile (rules : AllowedChanges) (result : Dict String SourceFile) (entry : String × SourceFile) :
    Except Failure (Dict String SourceFile) := do
  changePath rules entry.1
  .ok (result.set entry.1 entry.2)

def applyDelta (tar : TarLibrary Tar) (policy : SandboxPolicy) (baseline : SourceArchive) (archive : Tar)
    (deletions : List String) (rules : AllowedChanges) : Except Failure SourceArchive := do
  validateRules rules
  validateAllowedChanges policy.profile rules
  refuse (policy.limits.maxFiles < deletions.length) (.rejected "deletion count/type")
  let sent ← require (read tar archive policy.limits) (.rejected "source archive")
  let changes := withoutPytestCache sent baseline
  let members ← require (tar.members archive) (.rejected "source archive")
  checkAll canonicalMember members
  refuse (¬ deletions.Nodup) (.rejected "duplicate deletion")
  let kept ← foldAll (removeFile rules baseline changes) baseline.files deletions
  let result ← foldAll (takeFile rules) kept changes.files.entries
  let written ← require (toTar tar ⟨result⟩) (.rejected "invalid in-memory source entry")
  let merged ← require (read tar written policy.limits) (.rejected "source archive")
  validateChanges merged baseline rules.sourceRoots rules.forbiddenPaths
  .ok merged

/-- The baseline without the deleted files and with the changed ones. -/
def patched (baseline : SourceArchive) (deletions : List String) (changes : Dict String SourceFile) :
    Dict String SourceFile := (deletions.foldl Dict.erase baseline.files).update changes.entries

theorem removeFiles_eq_ok {rules : AllowedChanges} {baseline changes : SourceArchive} {deletions : List String}
    {start result : Dict String SourceFile} :
    foldAll (removeFile rules baseline changes) start deletions = .ok result ↔
      (∀ name ∈ deletions, changePath rules name = .ok () ∧ name ∈ baseline.files.keys ∧
        name ∉ changes.files.keys) ∧ result = deletions.foldl Dict.erase start := by
  induction deletions generalizing start with
  | nil =>
      rw [foldAll_nil, Except.ok.injEq]
      exact ⟨fun same => ⟨by simp, same.symm⟩, fun both => both.2.symm⟩
  | cons name rest ih =>
      simp only [foldAll_cons_eq_ok, removeFile, bind_eq_ok, refuse_eq_ok, ih, List.forall_mem_cons,
        List.foldl_cons, Except.ok.injEq]
      constructor
      · rintro ⟨_, ⟨⟨⟩, path, _, consistent, rfl⟩, later, whole⟩
        rw [not_or, Decidable.not_not] at consistent
        exact ⟨⟨⟨path, consistent⟩, later⟩, whole⟩
      · rintro ⟨⟨⟨path, present, fresh⟩, later⟩, whole⟩
        exact ⟨_, ⟨(), path, (), by rw [not_or, Decidable.not_not]; exact ⟨present, fresh⟩, rfl⟩, later, whole⟩

theorem takeFiles_eq_ok {rules : AllowedChanges} {entries : List (String × SourceFile)}
    {start result : Dict String SourceFile} :
    foldAll (takeFile rules) start entries = .ok result ↔
      (∀ entry ∈ entries, changePath rules entry.1 = .ok ()) ∧ result = start.update entries := by
  induction entries generalizing start with
  | nil =>
      rw [foldAll_nil, Except.ok.injEq]
      exact ⟨fun same => ⟨by simp, same.symm⟩, fun both => both.2.symm⟩
  | cons entry rest ih =>
      simp only [foldAll_cons_eq_ok, takeFile, bind_eq_ok, ih, List.forall_mem_cons,
        Except.ok.injEq]
      constructor
      · rintro ⟨_, ⟨⟨⟩, path, rfl⟩, later, whole⟩
        exact ⟨⟨path, later⟩, whole⟩
      · rintro ⟨⟨path, later⟩, whole⟩
        exact ⟨_, ⟨(), path, rfl⟩, later, whole⟩

/-- What a delta that is applied has passed, and the archive that it gives. -/
structure Applied (tar : TarLibrary Tar) (policy : SandboxPolicy) (baseline : SourceArchive) (archive : Tar)
    (deletions : List String) (rules : AllowedChanges) (merged : SourceArchive) : Prop where
  valid : validateRules rules = .ok ()
  profile : validateAllowedChanges policy.profile rules = .ok ()
  count : deletions.length ≤ policy.limits.maxFiles
  distinct : deletions.Nodup
  delta : ∃ sent members written, read tar archive policy.limits = some sent ∧
    tar.members archive = some members ∧ (∀ item ∈ members, item.kind = .file ∧ safePath item.name = some item.name) ∧
    (∀ name ∈ deletions, changePath rules name = .ok () ∧ name ∈ baseline.files.keys ∧
      name ∉ (withoutPytestCache sent baseline).files.keys) ∧
    (∀ entry ∈ (withoutPytestCache sent baseline).files.entries, changePath rules entry.1 = .ok ()) ∧
    toTar tar ⟨patched baseline deletions (withoutPytestCache sent baseline).files⟩ = some written ∧
    read tar written policy.limits = some merged
  permitted : ChangesPermitted merged baseline rules

theorem applyDelta_eq_ok {tar : TarLibrary Tar} {policy : SandboxPolicy} {baseline : SourceArchive} {archive : Tar}
    {deletions : List String} {rules : AllowedChanges} {merged : SourceArchive} :
    applyDelta tar policy baseline archive deletions rules = .ok merged ↔
      Applied tar policy baseline archive deletions rules merged := by
  simp only [applyDelta, bind_eq_ok, refuse_eq_ok, require_eq_ok, checkAll_eq_ok, removeFiles_eq_ok,
    takeFiles_eq_ok]
  constructor
  · rintro ⟨⟨⟩, valid, ⟨⟩, profile, _, count, sent, accepted, members, listed, _, canonical, _, distinct, _,
      ⟨removed, rfl⟩, _, ⟨taken, rfl⟩, written, saved, _, again, _, permitted, same⟩
    obtain rfl := Except.ok.inj same
    constructor
    · exact valid
    · exact profile
    · exact Nat.not_lt.mp count
    · exact Decidable.not_not.mp distinct
    · refine ⟨sent, members, written, accepted, listed, ?_, removed, taken, saved, again⟩
      intro item member
      have plain := refuse_eq_ok.mp (canonical item member)
      rw [not_or, Decidable.not_not, Decidable.not_not] at plain
      exact plain
    · exact (validateChanges_eq_ok (safe_of_validateRules valid)).mp permitted
  · rintro ⟨valid, profile, count, distinct, ⟨sent, members, written, accepted, listed, canonical, removed, taken,
      saved, again⟩, permitted⟩
    refine ⟨(), valid, (), profile, (), Nat.not_lt.mpr count, sent, accepted, members, listed, (), ?_, (),
      Decidable.not_not.mpr distinct, _, ⟨removed, rfl⟩, _, ⟨taken, rfl⟩, written, saved, merged, again, (),
      (validateChanges_eq_ok (safe_of_validateRules valid)).mpr permitted, rfl⟩
    intro item member
    rw [canonicalMember, refuse_eq_ok, not_or, Decidable.not_not, Decidable.not_not]
    exact canonical item member

/-! ### The delta of a workspace -/

def changesOf (old new : SourceArchive) : SourceArchive :=
  ⟨new.files.filter fun name entry => old.files.get? name ≠ some entry⟩

def deletionsOf (old new : SourceArchive) : List String :=
  Sorting.sortBy id (old.files.keys.filter fun name => name ∉ new.files.keys)

variable {old new : SourceArchive}

theorem mem_deletionsOf {name : String} :
    name ∈ deletionsOf old new ↔ name ∈ old.files.keys ∧ name ∉ new.files.keys := by
  rw [deletionsOf, Sorting.mem_sortBy, List.mem_filter, decide_eq_true_eq]

theorem nodup_deletionsOf (old new : SourceArchive) : (deletionsOf old new).Nodup :=
  Sorting.nodup_sortBy.mpr (old.files.nodup.filter _)

theorem length_deletionsOf_le (old new : SourceArchive) : (deletionsOf old new).length ≤ old.files.size := by
  rw [deletionsOf, (Sorting.sortBy_perm id _).length_eq, ← Dict.length_keys]
  exact List.length_filter_le _ _

theorem get?_changesOf (old new : SourceArchive) (name : String) :
    (changesOf old new).files.get? name =
      if old.files.get? name = new.files.get? name then none else new.files.get? name := by
  rw [changesOf, Dict.get?_filter]
  cases found : new.files.get? name with
  | none => simp
  | some entry =>
      by_cases same : old.files.get? name = some entry
      · simp [same]
      · simp [same]

/-- The delta turns the baseline into the workspace. -/
theorem patched_changesOf {changes : SourceArchive} (same : changes.Same (changesOf old new)) :
    (SourceArchive.mk (patched old (deletionsOf old new) changes.files)).Same new := by
  intro name
  change (patched old (deletionsOf old new) changes.files).get? name = _
  rw [patched, Dict.get?_update_entries, same name, get?_changesOf, Dict.get?_foldl_erase]
  by_cases kept : old.files.get? name = new.files.get? name
  · have present : ¬ name ∈ deletionsOf old new := by
      rw [mem_deletionsOf, Dict.mem_keys_iff_isSome, Dict.mem_keys_iff_isSome, kept]
      exact fun both => both.2 both.1
    rw [if_pos kept, if_neg present, kept]
    rfl
  · rw [if_neg kept]
    cases found : new.files.get? name with
    | some entry => rfl
    | none =>
        rw [Option.or]
        cases before : old.files.get? name with
        | none => simp
        | some entry =>
            have deleted : name ∈ deletionsOf old new := by
              rw [mem_deletionsOf, Dict.mem_keys_iff_isSome, Dict.mem_keys_iff_isSome, before, found]
              exact ⟨rfl, by simp⟩
            rw [if_pos deleted]

theorem get?_withoutPytestCache (archive baseline : SourceArchive) (name : String) :
    (withoutPytestCache archive baseline).files.get? name =
      (archive.files.get? name).filter fun entry => !transient baseline name entry :=
  Dict.get?_filter _ _ _

/-- A workspace without metadata sends none. -/
theorem withoutPytestCache_changesOf {whole sent : SourceArchive}
    (same : sent.Same (changesOf old (withoutPytestCache whole old))) :
    (withoutPytestCache sent old).Same (changesOf old (withoutPytestCache whole old)) := by
  intro name
  rw [get?_withoutPytestCache, same name, get?_changesOf]
  by_cases kept : old.files.get? name = (withoutPytestCache whole old).files.get? name
  · rw [if_pos kept]
    rfl
  · rw [if_neg kept, get?_withoutPytestCache]
    cases whole.files.get? name with
    | none => rfl
    | some entry => cases transient old name entry <;> simp

/-- The names and the lengths that writing the delta and the result asks for. -/
structure Writable (limits : Policy) (old new : SourceArchive) : Prop where
  names : ∀ name ∈ new.files.keys, compiled name = false
  deletions : ∀ name ∈ deletionsOf old new, compiled name = false
  delta : tarLength (changesOf old new).files.entries ≤ limits.maxArchiveBytes
  result : tarLength new.files.entries ≤ limits.maxArchiveBytes

theorem mem_keys_changesOf {name : String} (member : name ∈ (changesOf old new).files.keys) :
    name ∈ new.files.keys ∧ old.files.get? name ≠ new.files.get? name := by
  rw [Dict.mem_keys_iff_isSome, get?_changesOf] at member
  by_cases kept : old.files.get? name = new.files.get? name
  · rw [if_pos kept] at member
    cases member
  · rw [if_neg kept] at member
    exact ⟨Dict.mem_keys_iff_isSome.mpr member, kept⟩

section Saved

variable {tar : TarLibrary Tar} {policy : SandboxPolicy} {rules : AllowedChanges} {whole : SourceArchive}

theorem ChangesPermitted.congr {one two : SourceArchive} (same : one.Same two)
    (permitted : ChangesPermitted one old rules) : ChangesPermitted two old rules := by
  intro name different
  apply permitted name
  rwa [same name]

/-- Applying the delta of a workspace gives the workspace, exactly where the delta and the result can be
written and the changes are permitted. -/
theorem applied_saved_iff (library : tar.Sound) (oldRead : Readable policy.limits old)
    (newRead : Readable policy.limits (withoutPytestCache whole old)) (valid : validateRules rules = .ok ())
    (profile : validateAllowedChanges policy.profile rules = .ok ())
    (permitted : ChangesPermitted (withoutPytestCache whole old) old rules) :
    (∃ archive merged, toTar tar (changesOf old (withoutPytestCache whole old)) = some archive ∧
      Applied tar policy old archive (deletionsOf old (withoutPytestCache whole old)) rules merged) ↔
      Writable policy.limits old (withoutPytestCache whole old) := by
  have changesRead : Readable policy.limits (changesOf old (withoutPytestCache whole old)) := newRead.filter _
  constructor
  · rintro ⟨archive, merged, saved, applied⟩
    obtain ⟨sent, members, written, accepted, listed, _, removed, taken, result, again⟩ := applied.delta
    have same := withoutPytestCache_changesOf (read_toTar library saved accepted)
    have whole' := patched_changesOf same
    have delta := (changesRead.written library).mp ⟨archive, sent, saved, accepted⟩
    have after := ((newRead.congr whole'.symm).written library).mp ⟨written, merged, result, again⟩
    constructor
    · intro name member
      exact after.1 name ((whole'.mem_keys name).mpr member)
    · intro name member
      have safe := (changePath_eq_ok.mp (removed name member).1).1
      exact safePath_compiled safe
    · exact delta.2
    · rw [← tarLength_perm whole'.perm]
      exact after.2
  · intro writable
    obtain ⟨archive, sent, saved, accepted⟩ := (changesRead.written library).mpr
      ⟨fun name member => writable.names name (mem_keys_changesOf member).1, writable.delta⟩
    have same := withoutPytestCache_changesOf (read_toTar library saved accepted)
    have whole' := patched_changesOf same
    obtain ⟨written, merged, result, again⟩ := ((newRead.congr whole'.symm).written library).mpr
      ⟨fun name member => writable.names name ((whole'.mem_keys name).mp member), by
        rw [tarLength_perm whole'.perm]; exact writable.result⟩
    have back := (read_toTar library result again).trans whole'
    obtain ⟨safe, encoded⟩ := toTar_eq_some.mp saved
    refine ⟨archive, merged, saved, ?_⟩
    constructor
    · exact valid
    · exact profile
    · exact (length_deletionsOf_le _ _).trans oldRead.files
    · exact nodup_deletionsOf _ _
    · refine ⟨sent, _, written, accepted, encoded ▸ library.members _ safe, ?_, ?_, ?_, result, again⟩
      · intro item member
        obtain ⟨entry, inside, rfl⟩ := List.mem_map.mp member
        exact ⟨rfl, safe entry inside⟩
      · intro name member
        obtain ⟨present, gone⟩ := mem_deletionsOf.mp member
        have different : (withoutPytestCache whole old).files.get? name ≠ old.files.get? name := by
          intro kept
          rw [Dict.mem_keys_iff_isSome, kept] at gone
          exact gone (Dict.mem_keys_iff_isSome.mp present)
        refine ⟨changePath_eq_ok.mpr ⟨?_, permitted name different⟩, present, ?_⟩
        · exact (oldRead.named name present).mpr (writable.deletions name member)
        · rw [same.mem_keys name]
          exact fun inside => gone (mem_keys_changesOf inside).1
      · intro entry member
        have key : entry.1 ∈ (withoutPytestCache sent old).files.keys := List.mem_map_of_mem member
        obtain ⟨inside, different⟩ := mem_keys_changesOf ((same.mem_keys _).mp key)
        apply changePath_eq_ok.mpr
        exact ⟨(newRead.named _ inside).mpr (writable.names _ inside), permitted _ different.symm⟩
    · exact permitted.congr back.symm

theorem applied_saved {archive : Tar} {merged : SourceArchive} (library : tar.Sound)
    (saved : toTar tar (changesOf old (withoutPytestCache whole old)) = some archive)
    (applied : Applied tar policy old archive (deletionsOf old (withoutPytestCache whole old)) rules merged) :
    merged.Same (withoutPytestCache whole old) := by
  obtain ⟨sent, members, written, accepted, _, _, _, _, result, again⟩ := applied.delta
  have same := withoutPytestCache_changesOf (read_toTar library saved accepted)
  exact (read_toTar library result again).trans (patched_changesOf same)

end Saved

end Submission

end FeatureRl
