import FeatureRl.Contracts.Samples
import FeatureRl.Pipeline.Packaging

/-! A package that assembly froze passes inspection, and nothing else does. -/

namespace FeatureRl

open Checked
open Artifacts (ArtifactStore Envelope Failure Hashing Envelope.size base64Length)
open Artifacts.ArtifactStore (opaqueBytes Wrote)

namespace Packaging

/-! ### Reading -/

section

variable {hashing : Hashing} {store : ArtifactStore} {α β : Type}

theorem read_bind {first : Reader α} {second : α → Reader β} {result : β} :
    Reader.read hashing store (first >>= second) = .ok result ↔
      ∃ value, Reader.read hashing store first = .ok value ∧
        Reader.read hashing store (second value) = .ok result := by
  rw [Reader.read, Reads.run_bind, bind_eq_ok]
  rfl

@[simp] theorem read_check (outcome : Except Failure α) :
    Reader.read hashing store (check outcome) = outcome := rfl

@[simp] theorem read_pure (value : α) : Reader.read hashing store (pure value) = .ok value := rfl

theorem read_envelope {cap : Nat} {ref : ArtifactRef} {object : Envelope} :
    Reader.read hashing store (envelope cap ref) = .ok object ↔
      store.get hashing (some cap) ref = .ok object := by
  rw [envelope, Reader.read, Reads.run, bind_eq_ok]
  simp [Reads.run]

/-- A computation returns the same in every larger store. -/
theorem read_mono {later : ArtifactStore} (larger : store.Extends later) {reader : Reader α} {result : α}
    (read : Reader.read hashing store reader = .ok result) : Reader.read hashing later reader = .ok result :=
  Reads.run_mono (fun _ _ found => larger.get found) read

/-- The store has the envelope under its digest. -/
def Stored (hashing : Hashing) (store : ArtifactStore) (object : Envelope) : Prop :=
  store.objects.get? (hashing.envelope object) = some object

theorem size_opaqueBytes_le {data : Bytes} {kind : Identifier} {cap : Nat} (short : kind.val.length ≤ 4000)
    (small : data.length ≤ cap) : (opaqueBytes data kind .public).size ≤ envelopeCap cap := by
  have encoding : Encoding.bytes.name.length = 5 := by decide
  have visibility : Visibility.public.name.length = 6 := by decide
  simp only [Envelope.size, Artifacts.Envelope.payloadLength, opaqueBytes, base64Length, envelopeCap, encoding,
    visibility]
  omega

theorem read_readBytes {ref : ArtifactRef} {cap : Nat} {kind : Identifier} {data : Bytes}
    (short : kind.val.length ≤ 4000) :
    Reader.read hashing store (readBytes ref cap (some kind) true) = .ok data ↔
      kind.val ∉ Artifacts.artifactTypes ∧ data.length ≤ cap ∧
      ref = hashing.refOf (opaqueBytes data kind .public) ∧
      Stored hashing store (opaqueBytes data kind .public) := by
  simp only [readBytes, read_bind, read_check, read_envelope, ArtifactStore.byteObject,
    ArtifactStore.decodeBytes, bind_eq_ok, refuse_eq_ok, ArtifactStore.get_eq_ok]
  constructor
  · rintro ⟨_, shape, _, ⟨_, opaqueKind, version⟩, object, ⟨_, present, _, same⟩, _, small, done⟩
    obtain ⟨kindOf, versionOf, visibilityOf, encodingOf, payload, bounded⟩ := object
    obtain rfl := Except.ok.inj done
    subst same
    simp only [Hashing.refOf, not_or, not_not, Option.mem_some_iff, exists_eq_left', true_and] at shape opaqueKind version
    obtain ⟨rfl, rfl, rfl⟩ := shape
    subst version
    exact ⟨opaqueKind.2, by simpa using small, rfl, present⟩
  · rintro ⟨untyped, small, rfl, present⟩
    refine ⟨(), by simp [Hashing.refOf, opaqueBytes], (),
      ⟨(), by simpa [Hashing.refOf, opaqueBytes] using untyped, by simp [Hashing.refOf, opaqueBytes]⟩,
      opaqueBytes data kind .public, ⟨Artifacts.public_mem_access _, present, ?_, rfl⟩, (),
      by simpa [opaqueBytes] using small, rfl⟩
    simpa using size_opaqueBytes_le short small

theorem read_readRecord {codec : Codec α} {ref : ArtifactRef} {kind : Identifier} {value : α}
    (short : kind.val.length ≤ 4000) :
    Reader.read hashing store (readRecord codec ref kind true) = .ok value ↔
      kind.val ∉ Artifacts.artifactTypes ∧ (codec.dump value).length ≤ maxDocument ∧
      ref = hashing.refOf (opaqueBytes (codec.dump value) kind .public) ∧
      Stored hashing store (opaqueBytes (codec.dump value) kind .public) := by
  simp only [readRecord, read_bind, read_check, read_pure, read_readBytes short, require_eq_ok, refuse_eq_ok,
    not_not]
  constructor
  · rintro ⟨raw, facts, other, validated, _, same, done⟩
    obtain rfl := Except.ok.inj done
    exact same ▸ facts
  · intro facts
    exact ⟨codec.dump value, facts, value, codec.validateJson_dump value, (), rfl, rfl⟩

end

/-! ### What a package consists of -/

variable {Input : Type} (projection : Projection Input)

structure Contents where
  resolved : Resolved
  values : PublicValues
  workspace : Bytes
  package : Bytes
  inventory : SolverInventory

namespace Contents

def files (contents : Contents) : Files :=
  packageFiles contents.resolved.source contents.values.instruction contents.values.runtime
    contents.values.checkData

def instructionObject (contents : Contents) : Envelope :=
  opaqueBytes contents.values.instruction instructionKind .public

def workspaceObject (contents : Contents) : Envelope := opaqueBytes contents.workspace archiveKind .public

def runtimeObject (contents : Contents) : Envelope := opaqueBytes contents.values.runtime runtimeKind .public

def packageObject (contents : Contents) : Envelope := opaqueBytes contents.package packageKind .public

def inventoryObject (contents : Contents) : Envelope :=
  opaqueBytes (SolverInventory.codec.dump contents.inventory) inventoryKind .public

/-- The public payloads, in the order of their publication. -/
def objects (contents : Contents) : List Envelope :=
  [contents.instructionObject, contents.workspaceObject, contents.runtimeObject, contents.packageObject,
    contents.inventoryObject]

end Contents

/-- The contents are those that the frozen inputs give, and the references are theirs. -/
structure Describes (contents : Contents) (view : SolverView) (packageRef : ArtifactRef) : Prop where
  workspace : projection.toTar contents.resolved.source = .ok contents.workspace
  package : projection.toTar contents.files = .ok contents.package
  archive : contents.inventory.archive = packageRef
  archiveSha256 : contents.inventory.archiveSha256 = projection.hashing.bytes contents.package
  components : contents.inventory.components =
    [view.instruction, view.workspace, view.runtimeManifest] ++ view.publicChecks
  entries : contents.inventory.files = inventoryEntries projection.hashing contents.files
  checks : view.publicChecks = contents.values.checks
  instructionRef : view.instruction = projection.hashing.refOf contents.instructionObject
  workspaceRef : view.workspace = projection.hashing.refOf contents.workspaceObject
  runtimeRef : view.runtimeManifest = projection.hashing.refOf contents.runtimeObject
  packageRef : packageRef = projection.hashing.refOf contents.packageObject
  inventoryRef : view.inventory = projection.hashing.refOf contents.inventoryObject

/-- No part is larger than inspection reads. -/
structure Fits (contents : Contents) : Prop where
  instruction : contents.values.instruction.length ≤ maxDocument
  runtime : contents.values.runtime.length ≤ maxDocument
  inventory : (SolverInventory.codec.dump contents.inventory).length ≤ maxDocument
  workspace : contents.workspace.length ≤ contents.resolved.maxArchiveBytes
  package : contents.package.length ≤ contents.resolved.maxArchiveBytes

variable {projection}

theorem inventory_ext {one two : SolverInventory} (archive : one.archive = two.archive)
    (archiveSha256 : one.archiveSha256 = two.archiveSha256) (components : one.components = two.components)
    (files : one.files = two.files) : one = two := by
  cases one
  cases two
  simp_all

/-- The frozen inputs determine every byte of a package and every reference to it. -/
theorem Describes.unique {contents others : Contents} {view otherView : SolverView}
    {packageRef otherRef : ArtifactRef} (first : Describes projection contents view packageRef)
    (second : Describes projection others otherView otherRef)
    (sameInputs : contents.resolved = others.resolved ∧ contents.values = others.values) :
    contents = others ∧ view = otherView ∧ packageRef = otherRef := by
  obtain ⟨resolved, values, workspace, package, inventory⟩ := contents
  obtain ⟨otherResolved, otherValues, otherWorkspace, otherPackage, otherInventory⟩ := others
  obtain ⟨rfl, rfl⟩ : resolved = otherResolved ∧ values = otherValues := sameInputs
  have sameWorkspace : workspace = otherWorkspace :=
    Except.ok.inj (first.workspace.symm.trans second.workspace)
  subst sameWorkspace
  have samePackage : package = otherPackage := Except.ok.inj (first.package.symm.trans second.package)
  subst samePackage
  have sameRef : packageRef = otherRef := first.packageRef.trans second.packageRef.symm
  have sameInstruction : view.instruction = otherView.instruction :=
    first.instructionRef.trans second.instructionRef.symm
  have sameTree : view.workspace = otherView.workspace := first.workspaceRef.trans second.workspaceRef.symm
  have sameRuntime : view.runtimeManifest = otherView.runtimeManifest :=
    first.runtimeRef.trans second.runtimeRef.symm
  have sameChecks : view.publicChecks = otherView.publicChecks := first.checks.trans second.checks.symm
  have sameInventory : inventory = otherInventory := by
    apply inventory_ext
    · exact first.archive.trans (sameRef.trans second.archive.symm)
    · exact first.archiveSha256.trans second.archiveSha256.symm
    · rw [first.components, second.components, sameInstruction, sameTree, sameRuntime, sameChecks]
    · exact first.entries.trans second.entries.symm
  subst sameInventory
  refine ⟨rfl, ?_, sameRef⟩
  have sameList : view.inventory = otherView.inventory := first.inventoryRef.trans second.inventoryRef.symm
  cases view
  cases otherView
  simp_all

/-! ### Inspection -/

/-- Inspection accepts what the frozen inputs give and the store has, and returns the package. -/
theorem read_inspectPackage {store : ArtifactStore} {inputs : Input} {view : SolverView}
    {packageRef : ArtifactRef} {bytes : Bytes} :
    (inspectPackage projection inputs view packageRef).read projection.hashing store = .ok bytes ↔
      ∃ contents : Contents,
        (frozen projection inputs).read projection.hashing store = .ok (contents.resolved, contents.values) ∧
        Describes projection contents view packageRef ∧ Fits contents ∧
        (∀ object ∈ contents.objects, Stored projection.hashing store object) ∧ contents.package = bytes := by
  have short : ∀ kind ∈ [instructionKind, archiveKind, runtimeKind, packageKind, inventoryKind],
      kind.val.length ≤ 4000 ∧ kind.val ∉ Artifacts.artifactTypes := by decide
  obtain ⟨instructionShort, archiveShort, runtimeShort, packageShort, inventoryShort⟩ :
      (_ ∧ _) ∧ (_ ∧ _) ∧ (_ ∧ _) ∧ (_ ∧ _) ∧ (_ ∧ _) := by simpa using short
  simp only [inspectPackage, read_bind, read_check, read_pure, refuse_eq_ok, not_or, not_not,
    read_readBytes instructionShort.1, read_readBytes archiveShort.1, read_readBytes runtimeShort.1,
    read_readBytes packageShort.1, read_readRecord inventoryShort.1]
  constructor
  · rintro ⟨⟨resolved, values⟩, inputsRead, instruction, ⟨_, instructionFits, instructionRef, instructionStored⟩,
      _, rfl, runtime, ⟨_, runtimeFits, runtimeRef, runtimeStored⟩, _, rfl, _, checks, workspace,
      ⟨_, workspaceFits, workspaceRef, workspaceStored⟩, tree, treeTar, _, rfl, inventory,
      ⟨_, inventoryFits, inventoryRef, inventoryStored⟩, package,
      ⟨_, packageFits, packageRefOf, packageStored⟩, _, ⟨archive, archiveSha256, components, entries⟩,
      expected, packageTar, _, rfl, done⟩
    refine ⟨⟨resolved, values, workspace, package, inventory⟩, inputsRead,
      ⟨treeTar, packageTar, archive, archiveSha256, components, entries, checks, instructionRef, workspaceRef,
        runtimeRef, packageRefOf, inventoryRef⟩,
      ⟨instructionFits, runtimeFits, inventoryFits, workspaceFits, packageFits⟩, ?_, Except.ok.inj done⟩
    simp only [Contents.objects, List.forall_mem_cons]
    exact ⟨instructionStored, workspaceStored, runtimeStored, packageStored, inventoryStored, by simp⟩
  · rintro ⟨contents, inputsRead, described, fits, stored, rfl⟩
    simp only [Contents.objects, List.forall_mem_cons] at stored
    obtain ⟨instructionStored, workspaceStored, runtimeStored, packageStored, inventoryStored, _⟩ := stored
    exact ⟨(contents.resolved, contents.values), inputsRead, contents.values.instruction,
      ⟨instructionShort.2, fits.instruction, described.instructionRef, instructionStored⟩, (), rfl,
      contents.values.runtime, ⟨runtimeShort.2, fits.runtime, described.runtimeRef, runtimeStored⟩, (), rfl, (),
      described.checks, contents.workspace,
      ⟨archiveShort.2, fits.workspace, described.workspaceRef, workspaceStored⟩, contents.workspace,
      described.workspace, (), rfl, contents.inventory,
      ⟨inventoryShort.2, fits.inventory, described.inventoryRef, inventoryStored⟩, contents.package,
      ⟨packageShort.2, fits.package, described.packageRef, packageStored⟩, (),
      ⟨described.archive, described.archiveSha256, described.components, described.entries⟩, contents.package,
      described.package, (), rfl, rfl⟩

/-! ### Assembly -/

theorem wrote_of_putBytes {hashing : Hashing} {store next : ArtifactStore} {data : Bytes} {kind : Identifier}
    {visibility : Visibility} {ref : ArtifactRef}
    (written : store.putBytes hashing data kind visibility = .ok (next, ref)) :
    Wrote hashing store (opaqueBytes data kind visibility) next ref :=
  ArtifactStore.put_wrote (ArtifactStore.putBytes_eq_ok.mp written).2

/-- What a write stored is there in every later store. -/
theorem stored_of_wrote {hashing : Hashing} {store next later : ArtifactStore} {object : Envelope}
    {ref : ArtifactRef} (written : Wrote hashing store object next ref) (larger : next.Extends later) :
    Stored hashing later object := by
  have present := written.present
  rw [written.refOf] at present
  exact larger.objects _ _ present

/-- The store has the public payloads, and beyond what it had before only those. -/
structure Published (hashing : Hashing) (store next : ArtifactStore) (objects : List Envelope) : Prop where
  larger : store.Extends next
  stored : ∀ object ∈ objects, Stored hashing next object
  only : ∀ digest object, next.objects.get? digest = some object →
    store.objects.get? digest = some object ∨ (object ∈ objects ∧ digest = hashing.envelope object)

namespace Published

theorem refl (hashing : Hashing) (store : ArtifactStore) : Published hashing store store [] :=
  ⟨.refl store, by simp, fun _ _ found => .inl found⟩

theorem concat {hashing : Hashing} {store middle next : ArtifactStore} {objects : List Envelope}
    {object : Envelope} {ref : ArtifactRef} (earlier : Published hashing store middle objects)
    (written : Wrote hashing middle object next ref) : Published hashing store next (objects ++ [object]) where
  larger := earlier.larger.trans written.larger
  stored other member := by
    rcases List.mem_append.mp member with before | last
    · exact written.larger.objects _ _ (earlier.stored other before)
    · obtain rfl := List.mem_singleton.mp last
      exact stored_of_wrote written (.refl next)
  only digest other found := by
    rcases written.only digest other found with before | ⟨rfl, rfl⟩
    · rcases earlier.only digest other before with old | ⟨member, same⟩
      · exact .inl old
      · exact .inr ⟨List.mem_append_left _ member, same⟩
    · exact .inr ⟨by simp, by rw [written.refOf]; rfl⟩

end Published

theorem freeze_eq_ok {store next : ArtifactStore} {resolved : Resolved} {values : PublicValues}
    {workspace package : Bytes} {view : SolverView} {packageRef : ArtifactRef}
    (tree : projection.toTar resolved.source = .ok workspace)
    (tar : projection.toTar (packageFiles resolved.source values.instruction values.runtime values.checkData) =
      .ok package)
    (frozen : freeze projection store values workspace package
      (packageFiles resolved.source values.instruction values.runtime values.checkData) =
        .ok (next, view, packageRef)) :
    ∃ inventory, (SolverInventory.codec.dump inventory).length ≤ maxDocument ∧
      Describes projection ⟨resolved, values, workspace, package, inventory⟩ view packageRef ∧
      Published projection.hashing store next
        (Contents.objects ⟨resolved, values, workspace, package, inventory⟩) := by
  simp only [freeze, bind_eq_ok, require_eq_ok, refuse_eq_ok, Prod.exists] at frozen
  obtain ⟨one, instructionRef, instructionPut, two, workspaceRef, workspacePut, three, runtimeRef, runtimePut,
    four, packageRef', packagePut, inventory, created, _, small, five, inventoryRef, inventoryPut, other,
    viewed, done⟩ := frozen
  cases done
  obtain ⟨archive, archiveSha256, components, entries⟩ := SolverInventory.create_eq_some.mp created
  obtain ⟨rfl, rfl, checks, rfl, rfl⟩ := SolverView.create_eq_some.mp viewed
  have instructionWrote := wrote_of_putBytes instructionPut
  have workspaceWrote := wrote_of_putBytes workspacePut
  have runtimeWrote := wrote_of_putBytes runtimePut
  have packageWrote := wrote_of_putBytes packagePut
  have inventoryWrote := wrote_of_putBytes inventoryPut
  exact ⟨inventory, not_lt.mp small,
    ⟨tree, tar, archive, archiveSha256, by rw [components, checks], entries, checks, instructionWrote.refOf,
      workspaceWrote.refOf, runtimeWrote.refOf, packageWrote.refOf, inventoryWrote.refOf⟩,
    ((((Published.refl _ store).concat instructionWrote).concat workspaceWrote).concat runtimeWrote).concat
      packageWrote |>.concat inventoryWrote⟩

theorem assemble_eq_ok {registers : ArtifactRef → Except Failure Unit} {store next : ArtifactStore}
    {inputs : Input} {view : SolverView} {packageRef : ArtifactRef} {dependencies : List ArtifactRef}
    (assembled : assemble projection registers store inputs = .ok (next, view, packageRef, dependencies)) :
    ∃ contents : Contents,
      (frozen projection inputs).read projection.hashing store = .ok (contents.resolved, contents.values) ∧
      Describes projection contents view packageRef ∧ Fits contents ∧
      Published projection.hashing store next contents.objects := by
  simp only [assemble, bind_eq_ok, refuse_eq_ok, not_or, not_lt, Prod.exists] at assembled
  obtain ⟨resolved, resolution, _, _, values, valuesRead, _, ⟨instructionFits, runtimeFits⟩, workspace, tree, _,
    workspaceFits, _, _, package, tar, _, packageFits, after, shown, ref, frozenAs, done⟩ := assembled
  cases done
  obtain ⟨inventory, inventoryFits, described, published⟩ := freeze_eq_ok tree tar frozenAs
  refine ⟨⟨resolved, values, workspace, package, inventory⟩, ?_, described,
    ⟨instructionFits, runtimeFits, inventoryFits, workspaceFits, packageFits⟩, published⟩
  simp only [frozen, read_bind, read_pure]
  exact ⟨resolved, resolution, values, valuesRead, rfl⟩

/-! ### Exposure -/

/-- What a check of the inputs is: a public object of an allowed kind with these bytes. -/
def IsPublicCheck (hashing : Hashing) (store : ArtifactStore) (ref : ArtifactRef) (data : Bytes) : Prop :=
  ref.visibility = .public ∧ ref.kind.val ∈ publicKinds ∧
    ∃ object, store.objects.get? ref.sha256 = some object ∧ hashing.refOf object = ref ∧ object.payload = data

theorem isPublicCheck_of_readCheck {hashing : Hashing} {store : ArtifactStore} {ref : ArtifactRef} {data : Bytes}
    (read : (readCheck ref).read hashing store = .ok data) : IsPublicCheck hashing store ref data := by
  simp only [readCheck, readBytes, read_bind, read_check, read_pure, read_envelope, ArtifactStore.decodeBytes,
    bind_eq_ok, refuse_eq_ok, require_eq_ok, ArtifactStore.get_eq_ok, not_or, not_not] at read
  obtain ⟨_, kind, bytes, ⟨_, shape, _, _, object, ⟨_, present, _, same⟩, _, _, payload⟩, _, _, done⟩ := read
  obtain rfl := Except.ok.inj done
  exact ⟨by simpa using shape.2.2, kind, object, present, same, Except.ok.inj payload⟩

theorem publicChecks_of_frozen {store : ArtifactStore} {inputs : Input} {resolved : Resolved}
    {values : PublicValues}
    (read : (frozen projection inputs).read projection.hashing store = .ok (resolved, values)) :
    List.Forall₂ (IsPublicCheck projection.hashing store) values.checks values.checkData := by
  simp only [frozen, publicValues, read_bind, read_check, read_pure] at read
  obtain ⟨_, _, _, ⟨_, _, _, _, checkData, checked, made⟩, done⟩ := read
  obtain rfl := Except.ok.inj made
  obtain ⟨rfl, rfl⟩ := Prod.mk.inj (Except.ok.inj done)
  exact (Reads.exists_of_mapAll checked).imp fun _ _ => isPublicCheck_of_readCheck

/-- The files of a package are the two documents, the baseline files and the public checks. -/
theorem mem_packageFiles {source : Files} {instruction runtime : Bytes} {checks : List Bytes} {name : String}
    {file : SourceFile}
    (packed : (packageFiles source instruction runtime checks).get? name = some file) :
    (name = "instruction.md" ∧ file = ⟨instruction, false⟩) ∨
    (name = "runtime_manifest.json" ∧ file = ⟨runtime, false⟩) ∨
    (∃ path, name = workspacePath path ∧ source.get? path = some file) ∨
    ∃ index data, name = checkPath index ∧ checks[index]? = some data ∧ file = ⟨data, false⟩ := by
  rcases Dict.get?_update packed with earlier | isCheck
  · rcases Dict.get?_update earlier with document | isSource
    · rw [Dict.get?_set, Dict.get?_set] at document
      split at document
      next same => exact .inr (.inl ⟨same, (Option.some.inj document).symm⟩)
      next =>
        split at document
        next same => exact .inl ⟨same, (Option.some.inj document).symm⟩
        next => cases document
    · obtain ⟨⟨path, value⟩, member, same⟩ := List.mem_map.mp isSource
      obtain ⟨rfl, rfl⟩ := Prod.mk.inj same
      exact .inr (.inr (.inl ⟨path, rfl, Dict.mem_entries.mp (Sorting.mem_sortBy.mp member)⟩))
  · obtain ⟨⟨data, index⟩, member, same⟩ := List.mem_map.mp isCheck
    obtain ⟨rfl, rfl⟩ := Prod.mk.inj same
    exact .inr (.inr (.inr ⟨index, data, rfl, List.mem_zipIdx_iff_getElem?.mp member, rfl⟩))

/-- The public payloads of a task: its documents, its baseline files and its public checks. -/
inductive IsPublicPayload (hashing : Hashing) (store : ArtifactStore) (resolved : Resolved)
    (values : PublicValues) : String → SourceFile → Prop
  | instruction : IsPublicPayload hashing store resolved values "instruction.md" ⟨values.instruction, false⟩
  | runtime : IsPublicPayload hashing store resolved values "runtime_manifest.json" ⟨values.runtime, false⟩
  | source {path : String} {file : SourceFile} (baseline : resolved.source.get? path = some file) :
      IsPublicPayload hashing store resolved values (workspacePath path) file
  | check {index : Nat} {ref : ArtifactRef} {data : Bytes} (listed : values.checks[index]? = some ref)
      (isCheck : IsPublicCheck hashing store ref data) :
      IsPublicPayload hashing store resolved values (checkPath index) ⟨data, false⟩

theorem exists_of_forall₂ {α β : Type} {holds : α → β → Prop} {items : List α} {values : List β}
    (related : List.Forall₂ holds items values) {index : Nat} {value : β} (found : values[index]? = some value) :
    ∃ item, items[index]? = some item ∧ holds item value := by
  induction related generalizing index with
  | nil => simp at found
  | cons here _ ih =>
      cases index with
      | zero =>
          obtain rfl := Option.some.inj found
          exact ⟨_, rfl, here⟩
      | succ index => exact ih found

theorem isPublicPayload_of_packed {store : ArtifactStore} {inputs : Input} {contents : Contents}
    (read : (frozen projection inputs).read projection.hashing store =
      .ok (contents.resolved, contents.values)) {name : String} {file : SourceFile}
    (packed : contents.files.get? name = some file) :
    IsPublicPayload projection.hashing store contents.resolved contents.values name file := by
  rcases mem_packageFiles packed with ⟨rfl, rfl⟩ | ⟨rfl, rfl⟩ | ⟨path, rfl, baseline⟩ |
    ⟨index, data, rfl, found, rfl⟩
  · exact .instruction
  · exact .runtime
  · exact .source baseline
  · obtain ⟨ref, listed, isCheck⟩ := exists_of_forall₂ (publicChecks_of_frozen read) found
    exact .check listed isCheck

/-! ### Agreement -/

/-- Assembly freezes contents that inspection accepts from then on and that nothing else passes for,
and it makes nothing public but them. -/
theorem package_agrees (projection : Projection Input) (registers : ArtifactRef → Except Failure Unit)
    (store next : ArtifactStore) (inputs : Input) (view : SolverView) (packageRef : ArtifactRef)
    (dependencies : List ArtifactRef)
    (assembled : assemble projection registers store inputs = .ok (next, view, packageRef, dependencies)) :
    ∃ contents : Contents,
      (frozen projection inputs).read projection.hashing store = .ok (contents.resolved, contents.values) ∧
      Describes projection contents view packageRef ∧
      (∀ later, next.Extends later →
        (inspectPackage projection inputs view packageRef).read projection.hashing later =
          .ok contents.package) ∧
      (∀ other otherView otherRef bytes,
        (frozen projection inputs).read projection.hashing other = .ok (contents.resolved, contents.values) →
        (inspectPackage projection inputs otherView otherRef).read projection.hashing other = .ok bytes →
        otherView = view ∧ otherRef = packageRef ∧ bytes = contents.package ∧
          ∀ object ∈ contents.objects, Stored projection.hashing other object) ∧
      (∀ digest object, next.objects.get? digest = some object →
        store.objects.get? digest = some object ∨
          (object ∈ contents.objects ∧ digest = projection.hashing.envelope object)) ∧
      ∀ name file, contents.files.get? name = some file →
        IsPublicPayload projection.hashing store contents.resolved contents.values name file := by
  obtain ⟨contents, inputsRead, described, fits, published⟩ := assemble_eq_ok assembled
  refine ⟨contents, inputsRead, described, ?_, ?_, published.only, fun name file packed =>
    isPublicPayload_of_packed inputsRead packed⟩
  · intro later larger
    exact read_inspectPackage.mpr ⟨contents, read_mono (published.larger.trans larger) inputsRead, described,
      fits, fun object member => larger.objects _ _ (published.stored object member), rfl⟩
  · intro other otherView otherRef bytes sameInputs inspected
    obtain ⟨others, othersRead, othersDescribed, _, stored, rfl⟩ := read_inspectPackage.mp inspected
    have same : contents.resolved = others.resolved ∧ contents.values = others.values := by
      have equal := Except.ok.inj (sameInputs.symm.trans othersRead)
      exact ⟨(Prod.mk.inj equal).1, (Prod.mk.inj equal).2⟩
    obtain ⟨rfl, rfl, rfl⟩ := described.unique othersDescribed same
    exact ⟨rfl, rfl, rfl, stored⟩

section

def sampleDigest (digit : Char) (hex : isLowerHex digit = true) : Digest :=
  ⟨String.ofList (List.replicate 64 digit), isDigest_replicate hex⟩

/-- Digests that tell the payloads of the sample apart. -/
def sampleHashing : Hashing where
  envelope object :=
    if object.kind = instructionKind then sampleDigest 'a' (by decide)
    else if object.kind = archiveKind then sampleDigest 'b' (by decide)
    else if object.kind = runtimeKind then sampleDigest 'c' (by decide)
    else if object.kind = packageKind then sampleDigest 'd' (by decide)
    else if object.kind = inventoryKind then sampleDigest 'e' (by decide)
    else sampleDigest 'f' (by decide)
  bytes _ := sampleDigest '0' (by decide)

def sampleCheck : Envelope := opaqueBytes (Utf8.encode "assert run()".toList) ⟨"public-check", by decide⟩ .public

/-- A baseline of one file with one public check. -/
def sampleResolved : Resolved where
  source := Dict.empty.set "run.py" ⟨Utf8.encode "def run(): ...".toList, false⟩
  maxArchiveBytes := 1048576
  maxStagingBytes := 1048576
  instruction := Utf8.encode "# Feature task".toList
  publicChecks := [sampleHashing.refOf sampleCheck]
  publicExamples := [sampleHashing.refOf sampleCheck]
  dependencies := []

def sampleProjection : Projection Unit where
  hashing := sampleHashing
  toTar files := .ok (files.values.flatMap SourceFile.data)
  resolve _ := pure sampleResolved
  runtime _ := pure (Utf8.encode "{}".toList)

def sampleStore : ArtifactStore where
  role := .controller
  objects := Dict.empty.set (sampleHashing.envelope sampleCheck) sampleCheck

def sampleAssembly : Except Failure (ArtifactStore × SolverView × ArtifactRef × List ArtifactRef) :=
  assemble sampleProjection (fun _ => .ok ()) sampleStore ()

set_option maxRecDepth 100000 in
theorem exists_sampleAssembly : sampleAssembly.toBool = true := by decide +kernel

theorem package_agrees_sample : ∃ next view packageRef dependencies package,
    sampleAssembly = .ok (next, view, packageRef, dependencies) ∧
    (inspectPackage sampleProjection () view packageRef).read sampleHashing next = .ok package := by
  obtain ⟨⟨next, view, packageRef, dependencies⟩, outcome⟩ := exists_ok exists_sampleAssembly
  obtain ⟨contents, _, _, accepted, _⟩ :=
    package_agrees sampleProjection (fun _ => .ok ()) sampleStore next () view packageRef dependencies outcome
  exact ⟨next, view, packageRef, dependencies, contents.package, outcome, accepted next (.refl next)⟩

end

end Packaging

end FeatureRl
