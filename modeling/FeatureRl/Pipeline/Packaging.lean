import FeatureRl.Artifacts.Blobs
import FeatureRl.Contracts.Samples
import FeatureRl.Lib.Reads
import FeatureRl.Lib.Sorting
import FeatureRl.Pipeline.Tasks
import Mathlib.Data.String.Basic

/-!
The solver package of a task: its assembly from frozen inputs and its inspection. What the
inputs resolve to, the runtime manifest made from them and the tar format are left open.
-/

namespace FeatureRl

open Checked
open Fields (field fieldOr)
open Artifacts (ArtifactStore Envelope Failure Hashing)

/-! ### The inventory -/

structure InventoryEntry where
  path : String
  sha256 : Digest
  size : Nat
  executable : Bool
deriving DecidableEq

namespace InventoryEntry

def fields : Fields InventoryEntry :=
  (field "path" Codec.string |>.and <| field "sha256" Digest.codec |>.and <|
    field "size" Codec.natural |>.and <| field "executable" Codec.boolean).view
    (fun entry => (entry.path, entry.sha256, entry.size, entry.executable))
    (fun (path, sha256, size, executable) => some ⟨path, sha256, size, executable⟩)
    (fun _ => rfl)

def codec : Codec InventoryEntry := fields.codec (by decide)

end InventoryEntry

structure SolverInventory where
  archive : ArtifactRef
  archiveSha256 : Digest
  components : List ArtifactRef
  files : List InventoryEntry
  bounded : components.length ≤ 256 ∧ 1 ≤ files.length ∧ files.length ≤ 2100
deriving DecidableEq

namespace SolverInventory

def version : String := "m6-solver-inventory-v1"

def create (archive : ArtifactRef) (archiveSha256 : Digest) (components : List ArtifactRef)
    (files : List InventoryEntry) : Option SolverInventory :=
  if bounded : components.length ≤ 256 ∧ 1 ≤ files.length ∧ files.length ≤ 2100 then
    some ⟨archive, archiveSha256, components, files, bounded⟩
  else none

theorem create_eq_some {archive : ArtifactRef} {archiveSha256 : Digest} {components : List ArtifactRef}
    {files : List InventoryEntry} {inventory : SolverInventory} :
    create archive archiveSha256 components files = some inventory ↔ inventory.archive = archive ∧
      inventory.archiveSha256 = archiveSha256 ∧ inventory.components = components ∧
      inventory.files = files := by
  rw [create]
  constructor
  · intro created
    split at created
    next =>
      obtain rfl := Option.some.inj created
      exact ⟨rfl, rfl, rfl, rfl⟩
    next => cases created
  · rintro ⟨rfl, rfl, rfl, rfl⟩
    rw [dif_pos inventory.bounded]

def fields : Fields SolverInventory :=
  (fieldOr "version" Codec.string version |>.and <| field "archive" ArtifactRef.codec |>.and <|
    field "archive_sha256" Digest.codec |>.and <| field "components" (Codec.tuple ArtifactRef.codec) |>.and <|
    field "files" (Codec.tuple InventoryEntry.codec)).view
    (fun inventory => (version, inventory.archive, inventory.archiveSha256, inventory.components,
      inventory.files))
    (fun (name, archive, archiveSha256, components, files) =>
      if name = version then create archive archiveSha256 components files else none)
    (fun inventory => by simp [create_eq_some])

def codec : Codec SolverInventory := fields.codec (by decide)

end SolverInventory

/-- The constructor of a solver view with its check. -/
def SolverView.create (instruction workspace : ArtifactRef) (publicChecks : List ArtifactRef)
    (runtimeManifest inventory : ArtifactRef) : Option SolverView :=
  if onlyPublic : ∀ ref ∈ [instruction, workspace, runtimeManifest, inventory] ++ publicChecks,
      ref.visibility = .public then
    some ⟨instruction, workspace, publicChecks, runtimeManifest, inventory, onlyPublic⟩
  else none

theorem SolverView.create_eq_some {instruction workspace : ArtifactRef} {publicChecks : List ArtifactRef}
    {runtimeManifest inventory : ArtifactRef} {view : SolverView} :
    create instruction workspace publicChecks runtimeManifest inventory = some view ↔
      view.instruction = instruction ∧ view.workspace = workspace ∧ view.publicChecks = publicChecks ∧
      view.runtimeManifest = runtimeManifest ∧ view.inventory = inventory := by
  rw [create]
  constructor
  · intro created
    split at created
    next =>
      obtain rfl := Option.some.inj created
      exact ⟨rfl, rfl, rfl, rfl, rfl⟩
    next => cases created
  · rintro ⟨rfl, rfl, rfl, rfl, rfl⟩
    rw [dif_pos view.onlyPublic]

namespace Packaging

/-! ### Reading -/

abbrev Reader := Reads (Option Nat × ArtifactRef) Envelope Failure

/-- What a computation finds in a store. -/
def Reader.read {α : Type} (hashing : Hashing) (store : ArtifactStore) (reader : Reader α) : Except Failure α :=
  reader.run fun (cap, ref) => store.get hashing cap ref

/-- A check of what was read so far. -/
def check {α : Type} (outcome : Except Failure α) : Reader α := .done outcome

def envelope (cap : Nat) (ref : ArtifactRef) : Reader Envelope := .fetch (some cap, ref) fun value => .done (.ok value)

def maxDocument : Nat := 1024 * 1024

def maxPublicCheck : Nat := 256 * 1024

/-- The largest envelope of so many payload bytes. -/
def envelopeCap (cap : Nat) : Nat := Artifacts.base64Length cap + 4096

def readBytes (ref : ArtifactRef) (cap : Nat) (kind : Option Identifier) (isPublic : Bool) : Reader Bytes := do
  check (refuse (ref.encoding ≠ .bytes ∨ (∃ expected ∈ kind, ref.kind ≠ expected) ∨
      (isPublic = true ∧ ref.visibility ≠ .public))
    (.rejected "unexpected byte artifact kind/encoding/visibility"))
  check (ArtifactStore.byteObject ref)
  let object ← envelope (envelopeCap cap) ref
  check (ArtifactStore.decodeBytes cap object)

/-- A record in its canonical bytes. -/
def readRecord {α : Type} (codec : Codec α) (ref : ArtifactRef) (kind : Identifier) (isPublic : Bool) :
    Reader α := do
  let raw ← readBytes ref maxDocument (some kind) isPublic
  let value ← check (require (codec.validateJson raw) (.rejected "invalid record"))
  check (refuse (codec.dump value ≠ raw) (.rejected "noncanonical or duplicate-key record"))
  pure value

/-! ### Package files -/

structure SourceFile where
  data : Bytes
  executable : Bool
deriving DecidableEq

abbrev Files := Dict String SourceFile

/-- The number in decimal, padded with zeros to a width. -/
def zfill (width index : Nat) : String :=
  let digits := Nat.toDigits 10 index
  String.ofList (List.replicate (width - digits.length) '0' ++ digits)

def checkPath (index : Nat) : String := "public_checks/" ++ zfill 4 index

def workspacePath (name : String) : String := "workspace/" ++ name

def packageFiles (source : Files) (instruction runtime : Bytes) (checks : List Bytes) : Files :=
  let documents := ((Dict.empty.set "instruction.md" ⟨instruction, false⟩).set "runtime_manifest.json"
    ⟨runtime, false⟩ : Files)
  let withSource := documents.update ((Sorting.sortBy Prod.fst source.entries).map fun (name, value) =>
    (workspacePath name, value))
  withSource.update (checks.zipIdx.map fun (data, index) => (checkPath index, ⟨data, false⟩))

def inventoryEntries (hashing : Hashing) (files : Files) : List InventoryEntry :=
  (Sorting.sortBy Prod.fst files.entries).map fun (name, value) =>
    ⟨name, hashing.bytes value.data, value.data.length, value.executable⟩

/-! ### Inputs -/

/-- What assembly and inspection read of the resolved inputs; the instruction is the text made from
the contract. -/
structure Resolved where
  source : Files
  maxArchiveBytes : Nat
  maxStagingBytes : Nat
  instruction : Bytes
  publicChecks : List ArtifactRef
  publicExamples : List ArtifactRef
  dependencies : List ArtifactRef

/-- How inputs are resolved and the runtime manifest is made, each a computation that reads the store,
and the tar format. -/
structure Projection (Input : Type) where
  hashing : Hashing
  toTar : Files → Except Failure Bytes
  resolve : Input → Reader Resolved
  runtime : Resolved → Reader Bytes

structure PublicValues where
  instruction : Bytes
  runtime : Bytes
  checks : List ArtifactRef
  checkData : List Bytes

def publicKinds : List String := ["public-check", "public-example"]

def readCheck (ref : ArtifactRef) : Reader Bytes := do
  check (refuse (ref.kind.val ∉ publicKinds) (.rejected "unsupported declared public-check kind"))
  let data ← readBytes ref maxPublicCheck none true
  let _ ← check (require (Utf8.decode data) (.rejected "invalid UTF-8"))
  pure data

variable {Input : Type} (projection : Projection Input)

def publicValues (resolved : Resolved) : Reader PublicValues := do
  let runtime ← projection.runtime resolved
  let checks := (resolved.publicChecks ++ resolved.publicExamples).eraseDups
  check (refuse (64 < checks.length) (.rejected "public-check count limit"))
  let checkData ← Reads.mapAll readCheck checks
  pure ⟨resolved.instruction, runtime, checks, checkData⟩

/-- The inputs as both paths derive them. -/
def frozen (inputs : Input) : Reader (Resolved × PublicValues) := do
  let resolved ← projection.resolve inputs
  let values ← publicValues projection resolved
  pure (resolved, values)

/-! ### Assembly -/

def instructionKind : Identifier := ⟨"m6-instruction", by decide⟩

def archiveKind : Identifier := ⟨"source-archive", isIdentifier_sourceArchive⟩

def runtimeKind : Identifier := ⟨"m6-runtime-manifest", by decide⟩

def packageKind : Identifier := ⟨"m6-solver-package", by decide⟩

def inventoryKind : Identifier := ⟨"m6-solver-inventory", by decide⟩

/-- Only these explicitly constructed payloads receive public visibility. -/
def freeze (store : ArtifactStore) (values : PublicValues) (workspace package : Bytes) (files : Files) :
    Except Failure (ArtifactStore × SolverView × ArtifactRef) := do
  let (store, instructionRef) ← store.putBytes projection.hashing values.instruction instructionKind .public
  let (store, workspaceRef) ← store.putBytes projection.hashing workspace archiveKind .public
  let (store, runtimeRef) ← store.putBytes projection.hashing values.runtime runtimeKind .public
  let (store, packageRef) ← store.putBytes projection.hashing package packageKind .public
  let inventory ← require (SolverInventory.create packageRef (projection.hashing.bytes package)
    ([instructionRef, workspaceRef, runtimeRef] ++ values.checks) (inventoryEntries projection.hashing files))
    (.rejected "invalid solver inventory")
  refuse (maxDocument < (SolverInventory.codec.dump inventory).length)
    (.rejected "solver inventory byte limit")
  let (store, inventoryRef) ←
    store.putBytes projection.hashing (SolverInventory.codec.dump inventory) inventoryKind .public
  let view ← require (SolverView.create instructionRef workspaceRef values.checks runtimeRef inventoryRef)
    (.rejected "invalid solver view")
  .ok (store, view, packageRef)

def assemble (registers : ArtifactRef → Except Failure Unit) (store : ArtifactStore) (inputs : Input) :
    Except Failure (ArtifactStore × SolverView × ArtifactRef × List ArtifactRef) := do
  let resolved ← (projection.resolve inputs).read projection.hashing store
  checkAll registers resolved.dependencies
  let values ← (publicValues projection resolved).read projection.hashing store
  refuse (maxDocument < values.instruction.length ∨ maxDocument < values.runtime.length)
    (.rejected "solver component document byte limit")
  let workspace ← projection.toTar resolved.source
  refuse (resolved.maxArchiveBytes < workspace.length) (.rejected "solver workspace archive byte limit")
  let files := packageFiles resolved.source values.instruction values.runtime values.checkData
  refuse (2100 < files.size ∨ resolved.maxStagingBytes < (files.values.map fun file => file.data.length).sum)
    (.rejected "aggregate solver package bounds")
  let package ← projection.toTar files
  refuse (resolved.maxArchiveBytes < package.length) (.rejected "solver package archive byte limit")
  let (next, view, packageRef) ← freeze projection store values workspace package files
  .ok (next, view, packageRef, resolved.dependencies)

/-! ### Inspection -/

def inspectPackage (inputs : Input) (view : SolverView) (packageRef : ArtifactRef) : Reader Bytes := do
  let (resolved, values) ← frozen projection inputs
  let differ : Failure := .rejected "solver components differ from frozen inputs"
  let instruction ← readBytes view.instruction maxDocument (some instructionKind) true
  check (refuse (instruction ≠ values.instruction) differ)
  let runtime ← readBytes view.runtimeManifest maxDocument (some runtimeKind) true
  check (refuse (runtime ≠ values.runtime) differ)
  check (refuse (view.publicChecks ≠ values.checks) differ)
  let workspace ← readBytes view.workspace resolved.maxArchiveBytes (some archiveKind) true
  let expectedWorkspace ← check (projection.toTar resolved.source)
  check (refuse (workspace ≠ expectedWorkspace) differ)
  let inventory ← readRecord SolverInventory.codec view.inventory inventoryKind true
  let package ← readBytes packageRef resolved.maxArchiveBytes (some packageKind) true
  let expected := packageFiles resolved.source values.instruction values.runtime values.checkData
  let mismatch : Failure := .rejected "solver inventory/package bytes mismatch"
  check (refuse (inventory.archive ≠ packageRef ∨ inventory.archiveSha256 ≠ projection.hashing.bytes package ∨
      inventory.components ≠ [view.instruction, view.workspace, view.runtimeManifest] ++ view.publicChecks ∨
      inventory.files ≠ inventoryEntries projection.hashing expected) mismatch)
  let expectedPackage ← check (projection.toTar expected)
  check (refuse (package ≠ expectedPackage) mismatch)
  pure package

end Packaging

end FeatureRl
