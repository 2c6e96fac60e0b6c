import FeatureRl.Environments.Archives
import FeatureRl.Lib.Checked
import Mathlib.Algebra.GroupWithZero.Nat

/-!
Validation of a built project wheel: where each member is installed, and what an accepted wheel may contain.
-/

namespace FeatureRl

open Checked
open Paths (split join ancestors)

namespace Wheels

abbrev Path := List Char

local instance lawfulPath : LawfulBEq (List Char) := inferInstance

structure SourceRejected where
  message : String
deriving DecidableEq

def reject {α : Type} (message : String) : Except SourceRejected α := .error ⟨message⟩

/-- A member of the archive; its content may fail to be read. -/
structure Info where
  filename : String
  fileSize : Nat
  format : Nat
  encrypted : Bool
  content : Option Bytes

def Info.isDir (info : Info) : Bool := info.filename.toList.getLast? = some '/'

structure SourceMapping where
  source : Path
  wheel : Path

structure Profile where
  projectName : String
  projectVersion : String
  interpreterVersion : String
  sourceMappings : List SourceMapping

structure Policy where
  maxSourceBytes : Nat
  maxFiles : Nat
  profile : Profile

/-- What libraries supply: the zip format, packaging's names, versions, tags and specifiers, the headers of an e-mail
message, and Python's case folding. -/
structure Library (V T : Type) where
  infolist : Bytes → Option (List Info)
  parseWheelFilename : String → Option (String × V × List T)
  canonicalizeName : String → String
  version : String → Option V
  parseTag : List Char → Option (List T)
  compatible : List T → Policy → Bool
  contains : String → String → Option Bool
  getAll : Bytes → String → List String
  casefold : Path → Path

/-! ### Destinations -/

def tagChar (c : Char) : Bool := c.isAlphanum || c = '_'

/-- `re.fullmatch(r'(?:\.(?:abi3|cpython-[0-9]+[-A-Za-z0-9_]*))?\.so', text)`. -/
def isExtensionSuffix (text : Path) : Bool :=
  text = ".so".toList || text = ".abi3.so".toList ||
    match ".cpython-".toList.isPrefixOf? text with
    | none => false
    | some rest => ".so".toList.isSuffixOf rest &&
        match rest.take (rest.length - 3) with
        | [] => false
        | c :: more => c.isDigit && more.all fun c => tagChar c || c = '-'

def startsWith (start text : Path) : Bool := start.isPrefixOf text

def endsWith (stop text : Path) : Bool := stop.isSuffixOf text

/-- Whether an installed file belongs to a declared project namespace. -/
def mappedBy (name : Path) (mapping : SourceMapping) : Bool :=
  let root := mapping.wheel
  let stem := if endsWith ".py".toList root then root.take (root.length - 3) else root
  name = root || startsWith (root ++ ['/']) name ||
    ((stem.isPrefixOf? name).any isExtensionSuffix) || startsWith (stem ++ ".libs/".toList) name

def mappedPath (name : Path) (mappings : List SourceMapping) : Bool := mappings.any (mappedBy name)

def importSuffixes : List Path := [".py", ".pyi", ".so", ".pyd", ".pth"].map String.toList

def protectedParts : List Path :=
  [".git", ".hg", ".svn", ".pytest_cache", "controller_checks", "authoring_sessions", "reference"].map String.toList

def protectedRoots : List Path := ["deps", "controller_checks", "authoring_sessions", "reference"].map String.toList

/-- The names that the file name of a wheel gives. -/
structure Identity where
  project : Path
  metadata : Path
  schemes : Path
  libraries : Path

section

variable (identity : Identity) (mappings : List SourceMapping)

/-- Where a member of the data directory is installed, by its scheme. -/
def schemeDestination : List Path → Except SourceRejected Path
  | scheme :: first :: rest =>
      let relative := join (first :: rest)
      if scheme = "purelib".toList ∨ scheme = "platlib".toList then
        if mappedPath relative mappings then .ok relative
        else reject "wheel install scheme replaces an undeclared import root"
      else if scheme = "scripts".toList then
        if rest = [] then .ok ("bin/".toList ++ relative)
        else reject "wheel scripts must be regular files without subdirectories"
      else if scheme = "headers".toList then .ok ("include/".toList ++ identity.project ++ '/' :: relative)
      else if scheme = "data".toList then
        -- pip --target installs data under the target directory itself.
        if ((first :: rest).any fun part => endsWith ".dist-info".toList part || endsWith ".data".toList part) ||
            ((importSuffixes.any fun suffix => endsWith suffix relative) && !mappedPath relative mappings) then
          reject "wheel data replaces an undeclared import root"
        else .ok relative
      else reject "unsupported wheel install scheme"
  | _ => reject "unsupported wheel install scheme"

def destinationOf (name : Path) : Except SourceRejected Path :=
  if startsWith (identity.metadata ++ ['/']) name then .ok name
  else if (split name).head? = some identity.schemes then schemeDestination identity mappings (split name).tail
  else if mappedPath name mappings || startsWith identity.libraries name then .ok name
  else reject "unexpected wheel import root"

end

/-! ### Members -/

section

variable {V T : Type} (library : Library V T) (identity : Identity) (mappings : List SourceMapping)

structure Reading where
  names : List Path
  installed : List Path
  files : List (Path × Bytes)

def readMember (reading : Reading) (info : Info) : Except SourceRejected Reading :=
  match Archives.safePath info.filename with
  | none => reject "invalid source path"
  | some safe =>
      let name := safe.toList
      if info.filename.toList ≠ name ++ (if info.isDir then ['/'] else []) ∨ name ∈ reading.names then
        reject "noncanonical or duplicate wheel paths"
      else if (info.format ≠ 0 ∧ info.format ≠ if info.isDir then 0x4000 else 0x8000) ∨ info.encrypted then
        reject "linked, special or encrypted wheel member"
      else if info.isDir then .ok { reading with names := name :: reading.names }
      else if (split name).any fun part => library.casefold part ∈ protectedParts then reject "protected wheel path"
      else
        match destinationOf identity mappings name with
        | .error failure => .error failure
        | .ok destination =>
            if (split destination).head?.any (· ∈ protectedRoots) || endsWith ".pth".toList destination ||
                destination ∈ reading.installed then
              reject "wheel import hook or conflicting install paths"
            else
              match info.content with
              | none => reject "invalid built wheel"
              | some content =>
                  .ok ⟨name :: reading.names, destination :: reading.installed, (name, content) :: reading.files⟩

/-- No path is a directory of another. -/
def unnested (paths : List Path) : Bool := paths.all fun path => (ancestors path).all fun above => above ∉ paths

/-! ### Identity -/

def isTagField (field : List Char) : Bool := (field.splitOn '.').all fun part => !part.isEmpty && part.all tagChar

def readTags (value : String) : Except SourceRejected (List T) :=
  let fields := value.toList.splitOn '-'
  if 255 < value.length ∨ fields.length ≠ 3 ∨ (fields.all isTagField) = false ∨
      1024 < (fields.map fun field => (field.splitOn '.').length).prod then
    reject "invalid or oversized wheel tag set"
  else
    match library.parseTag value.toList with
    | none => reject "invalid or oversized wheel tag set"
    | some tags => .ok tags

def fileAt (files : List (Path × Bytes)) (name : Path) : Option Bytes := files.lookup name

def sameTags [DecidableEq T] (first second : List T) : Bool :=
  first.all (· ∈ second) && second.all (· ∈ first)

def checkIdentity [DecidableEq V] [DecidableEq T] (policy : Policy) (project : String) (version : V) (tags : List T)
    (metadata wheel : Bytes) : Except SourceRejected Unit := do
  let headers := library.getAll wheel "Tag"
  refuse (1024 < headers.length) ⟨"oversized wheel tag metadata"⟩
  let declared ← headers.mapM (readTags library)
  let names := library.getAll metadata "Name"
  let versions := library.getAll metadata "Version"
  refuse (names.length ≠ 1 ∨ versions.length ≠ 1 ∨ names.head?.map library.canonicalizeName ≠ some project ∨
    versions.head?.bind library.version ≠ some version ∨
    library.getAll wheel "Root-Is-Purelib" ∉ [["true"], ["false"]] ∨ library.getAll wheel "Wheel-Version" ≠ ["1.0"] ∨
    sameTags declared.flatten tags = false) ⟨"built wheel metadata/filename identity mismatch"⟩
  refuse (((library.getAll metadata "Requires-Python").all fun spec =>
    library.contains spec policy.profile.interpreterVersion = some true) = false)
    ⟨"built wheel requires an incompatible interpreter"⟩

/-- `-`.join of the first two fields of the file name. -/
def stemOf (filename : String) : Path := List.intercalate ['-'] ((filename.toList.splitOn '-').take 2)

def identityOf (filename project : String) : Identity where
  project := project.toList
  metadata := stemOf filename ++ ".dist-info".toList
  schemes := stemOf filename ++ ".data".toList
  libraries := (project.toList.map fun c => if c = '-' then '_' else c) ++ ".libs/".toList

def identityFiles : List Path := ["METADATA", "WHEEL", "RECORD"].map String.toList

def validateWheel [DecidableEq V] [DecidableEq T] (data : Bytes) (source : List Path) (filename : String)
    (policy : Policy) : Except SourceRejected Bytes := do
  refuse (policy.maxSourceBytes < data.length) ⟨"built wheel size limit"⟩
  refuse (Archives.safePath filename ≠ some filename ∨ '/' ∈ filename.toList) ⟨"noncanonical built wheel filename"⟩
  let fields := (filename.toList.take (filename.length - 4)).splitOn '-'
  let _ ← readTags library (String.ofList (List.intercalate ['-'] (fields.drop (fields.length - 3))))
  let (project, version, tags) ← require (library.parseWheelFilename filename) ⟨"invalid built wheel"⟩
  refuse (project ≠ library.canonicalizeName policy.profile.projectName ∨
    some version ≠ library.version policy.profile.projectVersion ∨ library.compatible tags policy = false)
    ⟨"built wheel filename project/version/platform mismatch"⟩
  let identity := identityOf filename project
  let mappings := policy.profile.sourceMappings
  refuse ((mappings.all fun mapping => source.any fun name =>
    name = mapping.source || startsWith (mapping.source ++ ['/']) name) = false)
    ⟨"wheel source mapping is absent from supplied source"⟩
  let infos ← require (library.infolist data) ⟨"invalid built wheel"⟩
  refuse (policy.maxFiles < infos.length ∨ policy.maxSourceBytes + 1024 * 1024 < (infos.map Info.fileSize).sum)
    ⟨"expanded wheel cap"⟩
  let reading ← foldAll (readMember library identity mappings) ⟨[], [], []⟩ infos
  refuse (unnested (reading.files.map Prod.fst) = false) ⟨"wheel file is an ancestor of another member"⟩
  refuse (unnested reading.installed = false)
    ⟨"wheel install paths have conflicting file/directory destinations"⟩
  let metadata ← require (fileAt reading.files (identity.metadata ++ "/METADATA".toList))
    ⟨"missing built wheel identity metadata"⟩
  let wheel ← require (fileAt reading.files (identity.metadata ++ "/WHEEL".toList))
    ⟨"missing built wheel identity metadata"⟩
  let _ ← require (fileAt reading.files (identity.metadata ++ "/RECORD".toList))
    ⟨"missing built wheel identity metadata"⟩
  checkIdentity library policy project version tags metadata wheel
  return data

end

/-! ### Where members land -/

section

variable {identity : Identity} {mappings : List SourceMapping}

/-- A file of the data scheme is installed under the target itself: outside every metadata directory, and importable
only where the project declares it. -/
structure DataFile (identity : Identity) (mappings : List SourceMapping) (name destination : Path) : Prop where
  place : name = identity.schemes ++ "/data/".toList ++ destination
  apart : ∀ part ∈ split destination, endsWith ".dist-info".toList part = false ∧ endsWith ".data".toList part = false
  inert : mappedPath destination mappings = true ∨ ∀ suffix ∈ importSuffixes, endsWith suffix destination = false

/-- The places for the members of a wheel. -/
inductive Lands (identity : Identity) (mappings : List SourceMapping) (name : Path) : Path → Prop where
  | mapped {destination : Path} (declared : mappedPath destination mappings = true) :
      Lands identity mappings name destination
  | metadata (own : identity.metadata ++ ['/'] <+: name) : Lands identity mappings name name
  | libraries (bundled : identity.libraries <+: name) : Lands identity mappings name name
  | script {relative : Path} (flat : '/' ∉ relative) : Lands identity mappings name ("bin/".toList ++ relative)
  | header (relative : Path) : Lands identity mappings name ("include/".toList ++ identity.project ++ '/' :: relative)
  | data {destination : Path} (file : DataFile identity mappings name destination) :
      Lands identity mappings name destination

/-- What follows the last rewritten directory stays at the end. -/
def Keeps (name destination : Path) : Prop :=
  destination = name ∨ ∃ front relative, name = front ++ '/' :: relative ∧ relative <:+ destination

theorem scheme_parts {name : Path} {scheme first : Path} {rest : List Path}
    (parts : split name = identity.schemes :: scheme :: first :: rest) :
    name = identity.schemes ++ '/' :: (scheme ++ '/' :: join (first :: rest)) := by
  have whole := Paths.join_split name
  rw [parts, ← List.singleton_append, Paths.join_append (by simp) (by simp), ← @List.singleton_append _ scheme,
    Paths.join_append (by simp) (by simp)] at whole
  rw [← whole]
  simp [join]

theorem schemeDestination_spec {name scheme first destination : Path} {rest : List Path}
    (parts : split name = identity.schemes :: scheme :: first :: rest)
    (placed : schemeDestination identity mappings (scheme :: first :: rest) = .ok destination) :
    Lands identity mappings name destination ∧ join (first :: rest) <:+ destination := by
  have whole := scheme_parts parts
  have clean : ∀ part ∈ first :: rest, '/' ∉ part := fun part member =>
    Paths.slash_notMem (parts ▸ List.mem_cons_of_mem _ (List.mem_cons_of_mem _ member))
  rw [schemeDestination] at placed
  split at placed
  next =>
    split at placed
    next declared =>
      obtain rfl := Except.ok.inj placed
      exact ⟨.mapped declared, List.suffix_refl _⟩
    next => cases placed
  next =>
    split at placed
    next =>
      split at placed
      next alone =>
        obtain rfl := Except.ok.inj placed
        subst alone
        refine ⟨.script ?_, List.suffix_append _ _⟩
        simpa [join] using clean first List.mem_cons_self
      next => cases placed
    next =>
      split at placed
      next =>
        obtain rfl := Except.ok.inj placed
        exact ⟨.header _, (List.suffix_cons _ _).trans (List.suffix_append _ _)⟩
      next =>
        split at placed
        next data =>
          subst data
          split at placed
          next => cases placed
          next allowed =>
            obtain rfl := Except.ok.inj placed
            obtain ⟨apart, inert⟩ := not_or.mp (mt Bool.or_eq_true_iff.mpr allowed)
            refine ⟨.data ⟨?_, fun part member => ?_, ?_⟩, List.suffix_refl _⟩
            · rw [whole]
              simp
            · rw [Paths.split_join clean (List.cons_ne_nil _ _)] at member
              have neither := mt List.any_eq_true.mpr apart
              push Not at neither
              simpa using neither part member
            · by_cases declared : mappedPath (join (first :: rest)) mappings = true
              · exact .inl declared
              · refine .inr fun suffix listed => ?_
                by_contra ends
                rw [Bool.not_eq_false] at ends
                refine inert (Bool.and_eq_true_iff.mpr ⟨List.any_eq_true.mpr ⟨suffix, listed, ends⟩, ?_⟩)
                simpa using declared
        next => cases placed

theorem destinationOf_spec {name destination : Path}
    (placed : destinationOf identity mappings name = .ok destination) :
    Lands identity mappings name destination ∧ Keeps name destination := by
  rw [destinationOf] at placed
  split at placed
  next own =>
    obtain rfl := Except.ok.inj placed
    exact ⟨.metadata (List.isPrefixOf_iff_prefix.mp own), .inl rfl⟩
  next =>
    split at placed
    next head =>
      cases parts : split name with
      | nil => exact absurd parts (Paths.split_ne_nil name)
      | cons start tail =>
          rw [parts] at head placed
          obtain rfl := Option.some.inj head
          match tail, placed with
          | [], placed => cases placed
          | [_], placed => cases placed
          | scheme :: first :: rest, placed =>
              obtain ⟨lands, kept⟩ := schemeDestination_spec parts placed
              refine ⟨lands, .inr ⟨identity.schemes ++ '/' :: scheme, join (first :: rest), ?_, kept⟩⟩
              rw [scheme_parts parts]
              simp
    next =>
      split at placed
      next known =>
        obtain rfl := Except.ok.inj placed
        rcases Bool.or_eq_true_iff.mp known with declared | bundled
        · exact ⟨.mapped declared, .inl rfl⟩
        · exact ⟨.libraries (List.isPrefixOf_iff_prefix.mp bundled), .inl rfl⟩
      next => cases placed

/-- An ending without slashes is the same before and after the rewriting. -/
theorem Keeps.ends {name destination stop : Path} (kept : Keeps name destination) (single : '/' ∉ stop)
    (ends : stop <:+ name) : stop <:+ destination := by
  rcases kept with rfl | ⟨front, relative, rfl, inside⟩
  · exact ends
  · refine List.IsSuffix.trans ?_ inside
    rcases List.suffix_or_suffix_of_suffix ends (List.suffix_append front ('/' :: relative)) with shorter | longer
    · rcases List.suffix_cons_iff.mp shorter with whole | within
      · exact absurd (whole ▸ List.mem_cons_self) single
      · exact within
    · exact absurd (longer.subset List.mem_cons_self) single

end

/-! ### An accepted wheel -/

section

variable {V T : Type} {library : Library V T} {identity : Identity} {mappings : List SourceMapping}

/-- What a file member and its destination satisfy. -/
structure Contained (library : Library V T) (identity : Identity) (mappings : List SourceMapping)
    (name destination : Path) : Prop where
  placed : destinationOf identity mappings name = .ok destination
  lands : Lands identity mappings name destination
  unprotected : ∀ part ∈ split name, library.casefold part ∉ protectedParts
  outside : ∀ root ∈ (split destination).head?, root ∉ protectedRoots
  unhooked : ¬ ".pth".toList <:+ name ∧ ¬ ".pth".toList <:+ destination

theorem Contained.of_checks {name destination : Path} (placed : destinationOf identity mappings name = .ok destination)
    (unprotected : ∀ part ∈ split name, library.casefold part ∉ protectedParts)
    (outside : ∀ root ∈ (split destination).head?, root ∉ protectedRoots)
    (unhooked : endsWith ".pth".toList destination = false) : Contained library identity mappings name destination := by
  obtain ⟨lands, kept⟩ := destinationOf_spec placed
  have clear : ¬ ".pth".toList <:+ destination := fun ends => by
    rw [endsWith, List.isSuffixOf_iff_suffix.mpr ends] at unhooked
    cases unhooked
  exact ⟨placed, lands, unprotected, outside, fun ends => clear (kept.ends (by decide) ends), clear⟩

/-- A directory leaves the files alone; a file is added with a new destination. -/
theorem readMember_cases {reading next : Reading} {info : Info}
    (step : readMember library identity mappings reading info = .ok next) :
    (info.isDir = true ∧ next.installed = reading.installed ∧ next.files = reading.files) ∨
    (info.isDir = false ∧ ∃ destination content,
      Contained library identity mappings info.filename.toList destination ∧ destination ∉ reading.installed ∧
      info.content = some content ∧ next.installed = destination :: reading.installed ∧
      next.files = (info.filename.toList, content) :: reading.files) := by
  rw [readMember] at step
  split at step
  next => cases step
  next safe path =>
    dsimp only at step
    by_cases misnamed : info.filename.toList ≠ safe.toList ++ (if info.isDir then ['/'] else []) ∨
        safe.toList ∈ reading.names
    · rw [if_pos misnamed] at step
      cases step
    rw [if_neg misnamed] at step
    by_cases special : (info.format ≠ 0 ∧ info.format ≠ if info.isDir then 0x4000 else 0x8000) ∨ info.encrypted = true
    · rw [if_pos special] at step
      cases step
    rw [if_neg special] at step
    split at step
    next directory =>
      obtain rfl := Except.ok.inj step
      exact .inl ⟨directory, rfl, rfl⟩
    next file =>
      have plain : info.filename.toList = safe.toList := by
        have same := not_not.mp (not_or.mp misnamed).1
        rwa [if_neg file, List.append_nil] at same
      split at step
      next => cases step
      next unprotected =>
        split at step
        next => cases step
        next destination placed =>
          split at step
          next => cases step
          next permitted =>
            split at step
            next => cases step
            next content read =>
              obtain rfl := Except.ok.inj step
              simp only [Bool.or_eq_true, not_or, Option.any_eq_true, decide_eq_true_eq, not_exists, not_and,
                Bool.not_eq_true] at permitted
              simp only [List.any_eq_true, decide_eq_true_eq, not_exists, not_and] at unprotected
              rw [plain]
              exact .inr ⟨by simpa using file, destination, content,
                .of_checks placed unprotected (fun root head => permitted.1.1 root head) permitted.1.2,
                permitted.2, read, rfl, rfl⟩

/-- The names of the file members, the last one first. -/
def fileNames (infos : List Info) : List Path := ((infos.filter (!·.isDir)).map (·.filename.toList)).reverse

theorem fileNames_concat (infos : List Info) (info : Info) :
    fileNames (infos ++ [info]) =
      if info.isDir then fileNames infos else info.filename.toList :: fileNames infos := by
  cases kind : info.isDir <;> simp [fileNames, kind]

/-- What holds of the members read so far. -/
structure Held (library : Library V T) (identity : Identity) (mappings : List SourceMapping) (infos : List Info)
    (reading : Reading) : Prop where
  recorded : reading.files.map Prod.fst = fileNames infos
  contained : List.Forall₂ (Contained library identity mappings) (fileNames infos) reading.installed
  distinct : reading.installed.Nodup

theorem Held.readMember {infos : List Info} {reading next : Reading} {info : Info}
    (held : Held library identity mappings infos reading)
    (step : readMember library identity mappings reading info = .ok next) :
    Held library identity mappings (infos ++ [info]) next := by
  obtain ⟨recorded, contained, distinct⟩ := held
  rcases readMember_cases step with
    ⟨directory, installed, files⟩ | ⟨file, destination, content, here, new, -, installed, files⟩
  · refine ⟨?_, ?_, ?_⟩
    · rw [files, fileNames_concat, if_pos directory, recorded]
    · rw [installed, fileNames_concat, if_pos directory]
      exact contained
    · rw [installed]
      exact distinct
  · have plain : ¬ info.isDir = true := by simp [file]
    refine ⟨?_, ?_, ?_⟩
    · rw [files, fileNames_concat, if_neg plain, List.map_cons, recorded]
    · rw [installed, fileNames_concat, if_neg plain]
      exact .cons here contained
    · rw [installed]
      exact List.nodup_cons.mpr ⟨new, distinct⟩

theorem held_run {infos : List Info} {reading : Reading}
    (run : foldAll (Wheels.readMember library identity mappings) ⟨[], [], []⟩ infos = .ok reading) :
    Held library identity mappings infos reading := by
  induction infos using List.reverseRecOn generalizing reading with
  | nil =>
      obtain rfl := Except.ok.inj run
      exact ⟨rfl, .nil, List.nodup_nil⟩
  | append_singleton earlier info ih =>
      obtain ⟨middle, before, step⟩ := foldAll_concat_eq_ok.mp run
      exact (ih before).readMember step

theorem unnested_iff {paths : List Path} :
    unnested paths = true ↔ ∀ path ∈ paths, ∀ above ∈ paths, ¬ above ++ ['/'] <+: path := by
  simp only [unnested, List.all_eq_true, decide_eq_true_eq]
  constructor
  · intro separate path member above other first
    exact separate path member above (Paths.mem_ancestors.mpr first) other
  · intro separate path member above first other
    exact separate path member above other (Paths.mem_ancestors.mp first)

theorem fileAt_names {files : List (Path × Bytes)} {name : Path} {content : Bytes}
    (found : fileAt files name = some content) : name ∈ files.map Prod.fst := by
  obtain ⟨earlier, later, parts, -⟩ := List.lookup_eq_some_iff.mp found
  simp [parts]

/-- An accepted wheel installs each file member at a place of its own, below none of the others, with the three files
that identify it. -/
structure Sound (library : Library V T) (identity : Identity) (mappings : List SourceMapping) (names : List Path)
    (destinations : List Path) : Prop where
  contained : List.Forall₂ (Contained library identity mappings) names destinations
  distinct : destinations.Nodup
  separate : ∀ path ∈ destinations, ∀ above ∈ destinations, ¬ above ++ ['/'] <+: path
  identified : ∀ file ∈ identityFiles, identity.metadata ++ '/' :: file ∈ names

theorem wheel_sound [DecidableEq V] [DecidableEq T] {data result : Bytes} {source : List Path} {filename : String}
    {policy : Policy} (accepted : validateWheel library data source filename policy = .ok result) :
    result = data ∧ ∃ project version tags infos destinations,
      library.parseWheelFilename filename = some (project, version, tags) ∧ library.infolist data = some infos ∧
      Sound library (identityOf filename project) policy.profile.sourceMappings (fileNames infos) destinations := by
  simp only [validateWheel, bind_eq_ok, refuse_eq_ok, require_eq_ok] at accepted
  obtain ⟨-, -, -, -, -, -, ⟨project, version, tags⟩, parsed, -, -, -, -, infos, listed, -, -, reading, run, -, -, -,
    nested, metadata, hasMetadata, wheel, hasWheel, record, hasRecord, -, -, same⟩ := accepted
  have held := held_run run
  refine ⟨(Except.ok.inj same).symm, project, version, tags, infos, reading.installed, parsed, listed, held.contained,
    held.distinct, unnested_iff.mp (by simpa using nested), ?_⟩
  rw [← held.recorded]
  intro file member
  have found : file = "METADATA".toList ∨ file = "WHEEL".toList ∨ file = "RECORD".toList := by
    simpa [identityFiles] using member
  rcases found with rfl | rfl | rfl
  · exact fileAt_names hasMetadata
  · exact fileAt_names hasWheel
  · exact fileAt_names hasRecord

end

/-! ### A wheel with a file of the data scheme -/

def sampleFile (name content : String) : Info :=
  ⟨name, content.length, 0x8000, false, some (Utf8.encode content.toList)⟩

def sampleMembers : List Info :=
  [⟨"p/", 0, 0x4000, false, some []⟩, sampleFile "p/main.py" "x = 1\n", sampleFile "p-1.data/data/share/x" "x",
    sampleFile "p-1.data/scripts/p" "#!python\n", sampleFile "p-1.dist-info/METADATA" "Name: p\nVersion: 1\n",
    sampleFile "p-1.dist-info/WHEEL" "Wheel-Version: 1.0\nRoot-Is-Purelib: true\nTag: py3-none-any\n",
    sampleFile "p-1.dist-info/RECORD" ""]

/-- The values of the headers with this name. -/
def headerValues (content : Bytes) (name : String) : List String :=
  ((content.map fun byte => Char.ofNat byte.toNat).splitOn '\n').filterMap fun line =>
    ((name.toList ++ [':', ' ']).isPrefixOf? line).map String.ofList

def sampleLibrary : Library String (List Char) where
  infolist := fun _ => some sampleMembers
  parseWheelFilename := fun filename =>
    match filename.toList.splitOn '-' with
    | [project, version, python, abi, platform] =>
        some (String.ofList project, String.ofList version,
          [python ++ '-' :: abi ++ '-' :: platform.take (platform.length - 4)])
    | _ => none
  canonicalizeName := id
  version := some
  parseTag := fun tag => some [tag]
  compatible := fun _ _ => true
  contains := fun _ _ => some true
  getAll := headerValues
  casefold := fun text => text.map Char.toLower

def samplePolicy : Policy := ⟨4096, 16, ⟨"p", "1", "3.11.4", [⟨"src/p".toList, "p".toList⟩]⟩⟩

def sampleName : String := "p-1-py3-none-any.whl"

theorem accepts_sample :
    validateWheel sampleLibrary [80] ["src/p/main.py".toList] sampleName samplePolicy = .ok [80] := by
  decide +kernel

theorem wheel_sound_sample : ∃ destinations, Sound sampleLibrary (identityOf sampleName "p")
    samplePolicy.profile.sourceMappings (fileNames sampleMembers) destinations := by
  obtain ⟨-, project, version, tags, infos, destinations, parsed, listed, sound⟩ := wheel_sound accepts_sample
  obtain rfl : "p" = project := congrArg Prod.fst (Option.some.inj (show some ("p", "1", _) = _ from parsed))
  obtain rfl := Option.some.inj (show some sampleMembers = _ from listed)
  exact ⟨destinations, sound⟩

/-- The file of the data scheme lands under the target itself, and the empty RECORD covers no member. -/
theorem data_lands_elsewhere :
    validateWheel sampleLibrary [80] ["src/p/main.py".toList] sampleName samplePolicy = .ok [80] ∧
    "p-1.data/data/share/x".toList ∈ fileNames sampleMembers ∧
    destinationOf (identityOf sampleName "p") samplePolicy.profile.sourceMappings "p-1.data/data/share/x".toList =
      .ok "share/x".toList ∧
    mappedPath "share/x".toList samplePolicy.profile.sourceMappings = false ∧
    (∀ root ∈ ["p-1.dist-info/", "bin/", "include/p/", "p.libs/"], startsWith root.toList "share/x".toList = false) ∧
    sampleFile "p-1.dist-info/RECORD" "" ∈ sampleMembers ∧
    (sampleFile "p-1.dist-info/RECORD" "").content = some [] := by
  refine ⟨accepts_sample, ?_, ?_, ?_, ?_, ?_, ?_⟩
  · decide +kernel
  · decide +kernel
  · decide +kernel
  · decide +kernel
  · simp [sampleMembers]
  · decide +kernel

end Wheels

end FeatureRl
