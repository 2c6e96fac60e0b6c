import FeatureRl.Environments.Walk
import FeatureRl.Lib.Backtrack

/-!
The dependency solver: backtracking over the packages that a selection still misses, with the
wheels of a trusted registry or of an archive as choices.
-/

namespace FeatureRl

open Checked Sorting Backtrack

namespace Environments

variable {V M : Type}

/-! ### Choices -/

/-- A provider: the package, what is required of it, the admitted hashes if they are restricted,
and whether prereleases are preferred. -/
abbrev Options (V M : Type) :=
  String → List (Requirement M) → Option (List String) → Bool → List (Wheel V M)

def Problem.baselineOf (problem : Problem V M) (name : String) : Option DependencyPin :=
  problem.dependencies.find? fun pin => problem.packaging.canonicalizeName pin.name = name

def exactly (name version : String) : Requirement M := ⟨name, none, [], [⟨"==", version⟩], none⟩

/-- What the provider is asked for. With forbidden dependency changes only the first baseline pin
of the package is left. -/
def Problem.restrict (problem : Problem V M) (name : String) (requirements : List (Requirement M)) :
    Option (List (Requirement M) × Option (List String)) :=
  let requirements := requirements ++ problem.constraintsOf name
  let hashes := problem.hashesOf name
  if problem.rules.dependencies = .forbidden then
    match problem.baselineOf name with
    | none => none
    | some baseline =>
        let narrowed := match hashes with
          | none => [baseline.sha256]
          | some hashes => hashes.filter (· = baseline.sha256)
        if narrowed = [] then none
        else some (requirements ++ [exactly name baseline.version], some narrowed)
  else some (requirements, hashes)

def Problem.fits (problem : Problem V M) (selected : Selected V M) : Bool :=
  (selected.values.map Wheel.size).sum ≤ problem.policy.maxStagingBytes ∧
    (selected.values.map Wheel.expandedSize).sum ≤ problem.policy.diskBytes

def Problem.choice (problem : Problem V M) (selected : Selected V M) (name : String)
    (requirements : List (Requirement M)) (extras : List String) (wheel : Wheel V M) :
    Option (Except Failure (Selected V M)) :=
  if wheel.name ≠ name then
    some (.error (.policyRejected "dependency provider returned a different package name"))
  else if wheel.requirements.all (isSafe problem.packaging) = false then none
  else if problem.accepts wheel requirements extras = false then none
  else if problem.fits (selected.set name wheel) = true then some (.ok (selected.set name wheel))
  else none

def Problem.extend (problem : Problem V M) (options : Options V M) (selected : Selected V M) (name : String)
    (requirements : List (Requirement M)) (extras : List String) : List (Except Failure (Selected V M)) :=
  match problem.restrict name requirements with
  | none => []
  | some (requirements, hashes) =>
      (options name requirements hashes
        (requirements.any fun requirement => requirement.specifier.any problem.packaging.prereleases)).filterMap
        (problem.choice selected name requirements extras)

/-! ### Search -/

def inOrder (selected : Selected V M) : List (Wheel V M) :=
  (sortBy id selected.keys).filterMap selected.get?

def missing (selected : Selected V M) (closure : Closure M) : List String :=
  sortBy id (closure.needed.keys.filter fun name => name ∉ selected.keys)

def Problem.visit (problem : Problem V M) (options : Options V M) (selected : Selected V M) :
    Visit (Selected V M) (List (Wheel V M)) Failure :=
  match problem.closure selected with
  | .error failure => .failed failure
  | .ok none => .dead
  | .ok (some closure) =>
      match missing selected closure with
      | [] => .found (inOrder selected)
      | name :: _ =>
          .fork (problem.extend options selected name (closure.neededOf name) (closure.extrasOf name))

/-- The answer with the selections that were extended on the way; `none` when the steps run out. -/
def Problem.search (problem : Problem V M) (options : Options V M) (steps : Nat) :
    Option (Except Failure (Option (List (Wheel V M))) × List (Selected V M)) :=
  Backtrack.search (problem.visit options) steps [[.ok .empty]] []

/-- Solve a request; no wheels are a request without a selection. -/
def solve (request : Request V M) (options : Problem V M → Options V M) (steps : Nat) :
    Option (Except Failure (Option (List (Wheel V M)))) :=
  match request.prepare with
  | .error failure => some (.error failure)
  | .ok problem => (problem.search (options problem) steps).map Prod.fst

/-! ### The registry -/

/-- A wheel of an index with what inspecting it shows, if it is a valid wheel. -/
structure IndexedWheel (V M : Type) where
  pin : WheelPin
  version : V
  size : Option Nat
  inspected : Option (Wheel V M)
  same : ∀ wheel ∈ inspected, wheel.item.pin = pin ∧ wheel.version = version

/-- A finite registry: the wheels of each package by their filenames, and nothing of another
package. -/
structure Catalog (V M : Type) where
  index : Dict String (List (IndexedWheel V M))
  named : ∀ name list, index.get? name = some list → ∀ option ∈ list, option.pin.name = name ∧
    ∀ wheel ∈ option.inspected, wheel.name = name
  distinct : ∀ name list, index.get? name = some list →
    (list.map fun option => option.pin.filename).Nodup

def Catalog.indexOf (catalog : Catalog V M) (name : String) : List (IndexedWheel V M) :=
  (catalog.index.get? name).getD []

/-- A wheel is usable when its declarations are safe and it runs on the fixed interpreter. -/
def Problem.acquire (problem : Problem V M) (option : IndexedWheel V M) : Option (Wheel V M) :=
  option.inspected.filter fun wheel =>
    wheel.requirements.all (isSafe problem.packaging) &&
      wheel.tags.any (fun tag => tag ∈ problem.profile.compatibleTags) &&
      problem.packaging.contains wheel.requiresPython problem.profile.interpreterVersion

def Problem.permits (problem : Problem V M) (requirements : List (Requirement M))
    (hashes : Option (List String)) (option : IndexedWheel V M) : Bool :=
  hashes.all (fun allowed => option.pin.sha256 ∈ allowed) &&
    requirements.all fun requirement => problem.packaging.contains requirement.specifier option.version

/-- Prereleases come last unless they are asked for. -/
def Problem.registryOptions (problem : Problem V M) (catalog : Catalog V M) : Options V M :=
  fun name requirements hashes preferPrereleases =>
    let index := catalog.indexOf name
    let asked := preferPrereleases ||
      requirements.any fun requirement => requirement.specifier.any problem.packaging.prereleases
    let ordered := if asked = true then index
      else index.filter (fun option => ! problem.packaging.isPrerelease option.version) ++
        index.filter fun option => problem.packaging.isPrerelease option.version
    (ordered.filter (problem.permits requirements hashes)).filterMap problem.acquire

end Environments

end FeatureRl
