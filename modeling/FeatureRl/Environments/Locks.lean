import FeatureRl.Environments.Resolution

/-!
Dependency locks: a resolution is written with the index pages that it read, and is checked
again from the archived wheels alone.
-/

namespace FeatureRl

open Checked

namespace Environments

variable {V M : Type}

abbrev Snapshot (V M : Type) := Dict String (List (IndexedWheel V M))

/-- Retained bytes, and what inspecting the bytes of a pinned wheel shows. -/
structure Archive (V M : Type) where
  bytes : ArtifactRef → Option (List UInt8)
  sha256 : List UInt8 → String
  inspect : WheelPin → List UInt8 → Option (Wheel V M)

structure DependencyResolution (V M : Type) where
  requestIdentity : Digest
  indexSnapshot : Snapshot V M
  identity : Digest
  wheels : List CatalogWheel
  failure : Bool

/-! ### Writing -/

/-- The package that the provider is asked for when a selection is extended. -/
def Problem.asks (problem : Problem V M) (selected : Selected V M) : Option String :=
  match problem.closure selected with
  | .ok (some closure) =>
      match missing selected closure with
      | name :: _ => if (problem.restrict name (closure.neededOf name)).isSome then some name else none
      | [] => none
  | _ => none

/-- The pages that were read, under the sorted names of their packages. -/
def Catalog.freeze (catalog : Catalog V M) (names : List String) : Snapshot V M :=
  (Sorting.sortBy id names.dedup).foldl (fun snapshot name => snapshot.set name (catalog.indexOf name)) .empty

/-- Resolve a request against the registry and freeze the result. -/
def resolve (catalog : Catalog V M) (resolutionIdentity : Digest → Snapshot V M → Digest)
    (request : Request V M) (requestIdentity : Digest) (steps : Nat) :
    Option (Except Failure (DependencyResolution V M)) :=
  match request.prepare with
  | .error failure => some (.error failure)
  | .ok problem =>
      match problem.search (problem.registryOptions catalog) steps with
      | none => none
      | some (.error failure, _) => some (.error failure)
      | some (.ok selected, opened) =>
          let snapshot := catalog.freeze (opened.filterMap problem.asks)
          some (.ok {
            requestIdentity
            indexSnapshot := snapshot
            identity := resolutionIdentity requestIdentity snapshot
            wheels := (selected.getD []).map Wheel.item
            failure := selected.isNone })

/-! ### Reading -/

def checkItem (archive : Archive V M) (snapshot : Snapshot V M) (seen : List String)
    (item : CatalogWheel) : Except Failure (List String) := do
  let name := item.pin.name
  refuse (name ∈ seen) (.policyRejected "duplicate retained selected distribution")
  let option ← require
    (((snapshot.get? name).getD []).find? fun option => option.pin.filename = item.pin.filename)
    (.policyRejected "selected wheel lacks matching trusted index provenance")
  refuse (option.pin ≠ item.pin) (.policyRejected "selected wheel lacks matching trusted index provenance")
  let data ← require (archive.bytes item.artifact) (.policyRejected "dependency artifact is unavailable")
  refuse (archive.sha256 data ≠ item.pin.sha256 ∨ option.size.all (fun size => data.length = size) = false)
    (.policyRejected "selected wheel differs from retained trusted index")
  .ok (name :: seen)

def validateSnapshot (archive : Archive V M) (snapshot : Snapshot V M) (items : List CatalogWheel) :
    Except Failure (List String) :=
  foldAll (checkItem archive snapshot) [] items

def Archive.inspectWheel (archive : Archive V M) (item : CatalogWheel) : Except Failure (Wheel V M) := do
  let data ← require (archive.bytes item.artifact) (.policyRejected "dependency artifact is unavailable")
  refuse (archive.sha256 data ≠ item.pin.sha256) (.policyRejected "dependency wheel payload hash mismatch")
  let wheel ← require (archive.inspect item.pin data) (.policyRejected "invalid dependency wheel")
  .ok { wheel with item }

def byName (records : List (Wheel V M)) : Selected V M :=
  records.foldl (fun known wheel => known.set wheel.name wheel) .empty

/-- The only choice for a package is its archived wheel. -/
def archiveOptions (records : List (Wheel V M)) : Options V M :=
  fun name _ _ _ => ((byName records).get? name).toList

/-- A failure of the declarations is one of the lock. -/
def asRejection : Failure → Failure
  | .sourceRejected _ => .policyRejected "invalid frozen dependency resolution"
  | failure => failure

def loadRecords (archive : Archive V M) (resolutionIdentity : Digest → Snapshot V M → Digest)
    (requestIdentity : Digest) (value : DependencyResolution V M) : Except Failure (List (Wheel V M)) := do
  refuse (value.requestIdentity ≠ requestIdentity ∨
      value.identity ≠ resolutionIdentity requestIdentity value.indexSnapshot)
    (.policyRejected "dependency resolution/cache identity mismatch")
  let _ ← validateSnapshot archive value.indexSnapshot value.wheels
  refuse (value.failure = true ∧ value.wheels ≠ [])
    (.policyRejected "failed dependency resolution contains selected wheels")
  refuse (value.failure = true)
    (.dependencyUnavailable "trusted registry snapshot has no compatible complete dependency closure")
  let records ← value.wheels.mapM archive.inspectWheel
  refuse ((byName records).size ≠ records.length ∨ records = [])
    (.policyRejected "frozen dependency resolution has a duplicate or empty package roster")
  .ok records

def readDependencyResolution (archive : Archive V M)
    (resolutionIdentity : Digest → Snapshot V M → Digest) (request : Request V M)
    (requestIdentity : Digest) (value : DependencyResolution V M) (steps : Nat) :
    Option (Except Failure (List (Wheel V M))) :=
  match loadRecords archive resolutionIdentity requestIdentity value with
  | .error failure => some (.error (asRejection failure))
  | .ok records =>
      match solve request (fun _ => archiveOptions records) steps with
      | none => none
      | some (.error failure) => some (.error (asRejection failure))
      | some (.ok none) =>
          some (.error (.policyRejected "frozen dependency resolution is not the exact declared closure"))
      | some (.ok (some selected)) =>
          if selected.map Wheel.item = value.wheels then some (.ok selected)
          else some (.error (.policyRejected "frozen dependency resolution is not the exact declared closure"))

end Environments

end FeatureRl
