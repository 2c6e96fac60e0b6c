import FeatureRl.Contracts.Values
import FeatureRl.Lib.Checked
import FeatureRl.Lib.Sorting
import Mathlib.Data.Prod.Lex
import Mathlib.Data.String.Basic

/-!
Candidate dependency declarations. What the packaging library computes about versions,
specifiers and markers is a parameter.
-/

namespace FeatureRl

open Checked Sorting

namespace Environments

inductive Failure where
  | sourceRejected (message : String)
  | policyRejected (message : String)
  | dependencyUnavailable (message : String)
deriving DecidableEq

structure Specifier where
  operator : String
  version : String
deriving DecidableEq

/-- A parsed requirement with markers of type `M`. -/
structure Requirement (M : Type) where
  name : String
  url : Option String
  extras : List String
  specifier : List Specifier
  marker : Option M

abbrev MarkerEnvironment := List (String × String)

/-- The packaging library, for versions of type `V`. Specifiers allow prereleases here, and
`evaluate` is `none` where the library raises. -/
structure Packaging (V M : Type) where
  canonicalizeName : String → String
  canonicalizeVersion : String → Bool → Option String
  satisfies : Specifier → V → Bool
  prereleases : Specifier → Bool
  isPrerelease : V → Bool
  parse : String → Option (Requirement M)
  render : Requirement M → String
  renderMarker : M → String
  markerNames : M → List String
  evaluate : M → MarkerEnvironment → String → Option Bool

variable {V M : Type}

/-! ### Specifiers -/

def Packaging.contains (packaging : Packaging V M) (specifier : List Specifier) (version : V) : Bool :=
  specifier.all fun part => packaging.satisfies part version

/-- Versions are compared by their canonical form, except by `===` and with a wildcard. -/
def Packaging.canonicalizeSpecifier (packaging : Packaging V M) (specifier : Specifier) : Specifier :=
  if specifier.operator ≠ "===" ∧ '*' ∉ specifier.version.toList then
    { specifier with
      version := (packaging.canonicalizeVersion specifier.version (specifier.operator ≠ "~=")).getD
        specifier.version }
  else specifier

/-- A canonical version satisfies what the version itself does. -/
def Packaging.Lawful (packaging : Packaging V M) : Prop :=
  ∀ specifier : Specifier, specifier.operator ≠ "===" → '*' ∉ specifier.version.toList →
    ∀ canonical, packaging.canonicalizeVersion specifier.version (specifier.operator ≠ "~=") = some canonical →
      ∀ version, packaging.satisfies ⟨specifier.operator, canonical⟩ version =
        packaging.satisfies specifier version

theorem Packaging.Lawful.canonicalizeSpecifier {packaging : Packaging V M} (lawful : packaging.Lawful)
    (specifier : Specifier) (version : V) :
    packaging.satisfies (packaging.canonicalizeSpecifier specifier) version =
      packaging.satisfies specifier version := by
  rw [Packaging.canonicalizeSpecifier]
  split
  next plain =>
    cases canonical : packaging.canonicalizeVersion specifier.version (specifier.operator ≠ "~=") with
    | none => rfl
    | some text => exact lawful specifier plain.1 plain.2 text canonical version
  next => rfl

/-! ### Requirements -/

structure RequirementKey where
  name : String
  extras : List String
  specifiers : List Specifier
  marker : String
deriving DecidableEq

def Packaging.extrasOf (packaging : Packaging V M) (requirement : Requirement M) : List String :=
  requirement.extras.map packaging.canonicalizeName

def Packaging.nameOf (packaging : Packaging V M) (requirement : Requirement M) : String :=
  packaging.canonicalizeName requirement.name

def requirementKey (packaging : Packaging V M) (requirement : Requirement M) : RequirementKey where
  name := packaging.nameOf requirement
  extras := sortBy id (packaging.extrasOf requirement)
  specifiers := sortBy (fun part => toLex (part.operator, part.version))
    (requirement.specifier.map packaging.canonicalizeSpecifier)
  marker := (requirement.marker.map packaging.renderMarker).getD ""

/-- Requirements with one key accept the same versions. -/
theorem contains_eq_of_key {packaging : Packaging V M} (lawful : packaging.Lawful)
    {one two : Requirement M} (same : requirementKey packaging one = requirementKey packaging two)
    (version : V) : packaging.contains one.specifier version = packaging.contains two.specifier version := by
  have canonical : ∀ requirement : Requirement M, packaging.contains requirement.specifier version =
      (requirementKey packaging requirement).specifiers.all fun part => packaging.satisfies part version := by
    intro requirement
    rw [requirementKey, (sortBy_perm _ _).all_eq, List.all_map, Packaging.contains]
    refine congrArg (fun test => requirement.specifier.all test) (funext fun part => ?_)
    exact (lawful.canonicalizeSpecifier part version).symm
  rw [canonical, canonical, same]

/-! ### Safe declarations -/

def markerKeys : List String :=
  ["implementation_name", "implementation_version", "os_name", "platform_machine",
    "platform_python_implementation", "platform_release", "platform_system", "platform_version",
    "python_full_version", "python_version", "sys_platform"]

def hasSafeText (value : String) : Bool :=
  value.toList.length ≤ 16384 ∧ '\x00' ∉ value.toList ∧ '\n' ∉ value.toList ∧ '\r' ∉ value.toList ∧
    Char.ofNat 96 ∉ value.toList ∧ '$' ∉ value.toList ∧ ¬ ['-', '-'] <:+: value.toList

def hasSafeMarker (packaging : Packaging V M) (marker : M) : Bool :=
  (packaging.markerNames marker).all fun name =>
    name ∈ markerKeys ++ ["extra"] ∧ name ∉ ["platform_release", "platform_version"]

def safeRequirement (packaging : Packaging V M) (value : String) : Except Failure (Requirement M) := do
  refuse (hasSafeText value = false) (.sourceRejected "unsafe candidate dependency declaration")
  let requirement ← require (packaging.parse value)
    (.sourceRejected "invalid candidate dependency declaration")
  refuse (requirement.url.getD "" ≠ "")
    (.sourceRejected "URL and local dependency requirements are unsupported")
  refuse (requirement.marker.all (hasSafeMarker packaging) = false)
    (.sourceRejected "unsupported or host-kernel-dependent requirement marker")
  .ok requirement

/-- The requirement of a wheel is printed and checked again. -/
def isSafe (packaging : Packaging V M) (requirement : Requirement M) : Bool :=
  (safeRequirement packaging (packaging.render requirement)).toOption.isSome

/-! ### Wheels -/

structure WheelPin where
  name : String
  version : String
  filename : String
  sha256 : String
deriving DecidableEq

structure CatalogWheel where
  pin : WheelPin
  artifact : ArtifactRef
deriving DecidableEq

/-- What inspecting a wheel reads from it. -/
structure Wheel (V M : Type) where
  item : CatalogWheel
  name : String
  version : V
  tags : List String
  requiresPython : List Specifier
  requirements : List (Requirement M)
  extras : List String
  size : Nat
  expandedSize : Nat

/-! ### Requests -/

structure Metadata where
  buildRequirements : List String
  requirements : List String
  constraints : List String
  dependencyHashes : Dict String {hashes : List String // hashes ≠ []}

structure RuntimeProfile (V : Type) where
  compatibleTags : List String
  interpreterVersion : V

structure SandboxPolicy where
  maxStagingBytes : Nat
  diskBytes : Nat

structure DependencyPin where
  name : String
  version : String
  artifact : ArtifactRef
  sha256 : String

inductive DependencyRule where
  | forbidden | pinnedAllowlist
deriving DecidableEq

structure AllowedChanges where
  dependencies : DependencyRule
  dependencyArtifacts : List ArtifactRef

/-- The arguments of one resolution; `dependencies` are those of the recipe. -/
structure Request (V M : Type) where
  packaging : Packaging V M
  metadata : Metadata
  profile : RuntimeProfile V
  rules : AllowedChanges
  dependencies : List DependencyPin
  environment : MarkerEnvironment
  policy : SandboxPolicy

def Request.allowedArtifacts (request : Request V M) : Option (List ArtifactRef) :=
  if request.rules.dependencies = .forbidden ∨ request.rules.dependencyArtifacts ≠ [] then
    some (request.dependencies.map DependencyPin.artifact ++ request.rules.dependencyArtifacts)
  else none

def Request.active (request : Request V M) (requirement : Requirement M) (extra : String) :
    Except Failure Bool :=
  match requirement.marker with
  | none => .ok true
  | some marker =>
      match request.packaging.evaluate marker request.environment extra with
      | none => .error (.sourceRejected "candidate dependency marker cannot be evaluated safely")
      | some value => .ok value

/-- A request with its declarations parsed. -/
structure Problem (V M : Type) extends Request V M where
  roots : List (Requirement M)
  constraints : Dict String (List (Requirement M))

def Request.roots (request : Request V M) : Except Failure (List (Requirement M)) :=
  (request.metadata.buildRequirements ++ request.metadata.requirements).mapM
    (safeRequirement request.packaging)

def Request.constraints (request : Request V M) : Except Failure (Dict String (List (Requirement M))) :=
  foldAll (fun constraints value => do
    let requirement ← safeRequirement request.packaging value
    let applicable ← request.active requirement ""
    let name := request.packaging.nameOf requirement
    .ok (if applicable = true then
      constraints.set name ((constraints.get? name).getD [] ++ [requirement]) else constraints))
    .empty request.metadata.constraints

def Request.prepare (request : Request V M) : Except Failure (Problem V M) := do
  let roots ← request.roots
  let constraints ← request.constraints
  .ok { request with roots, constraints }

theorem prepare_packaging {request : Request V M} {problem : Problem V M}
    (prepared : request.prepare = .ok problem) : problem.packaging = request.packaging := by
  rw [Request.prepare, bind_eq_ok] at prepared
  obtain ⟨roots, _, prepared⟩ := prepared
  obtain ⟨constraints, _, prepared⟩ := bind_eq_ok.mp prepared
  obtain rfl := Except.ok.inj prepared
  rfl

def Problem.constraintsOf (problem : Problem V M) (name : String) : List (Requirement M) :=
  (problem.constraints.get? name).getD []

def Problem.hashesOf (problem : Problem V M) (name : String) : Option (List String) :=
  (problem.metadata.dependencyHashes.get? name).map Subtype.val

end Environments

end FeatureRl
