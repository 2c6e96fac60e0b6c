import FeatureRl.Contracts.Values
import FeatureRl.Lib.Checked

/-! Task bundles, qualification reports and the store that they are published to. -/

namespace FeatureRl

open Fields (field)

/-! ### States -/

inductive TaskState where
  | discovered | screened | reconstructed | built | qualified | calibrated | released | quarantined
deriving DecidableEq

namespace TaskState

def all : List TaskState :=
  [discovered, screened, reconstructed, built, qualified, calibrated, released, quarantined]

def name : TaskState → String
  | discovered => "discovered"
  | screened => "screened"
  | reconstructed => "reconstructed"
  | built => "built"
  | qualified => "qualified"
  | calibrated => "calibrated"
  | released => "released"
  | quarantined => "quarantined"

def codec : Codec TaskState := enumeration all name fun value => by cases value <;> decide

end TaskState

def Partition.codec : Codec Partition :=
  enumeration [Partition.train, .development, .lockedTest, .unassigned] Partition.name
    fun value => by cases value <;> decide

/-! ### Records -/

structure Provenance where
  producer : Text
  producerVersion : Text
  createdAt : Timestamp
  inputs : List ArtifactRef
  evidence : List EvidenceRecord
  nonempty : evidence ≠ []
deriving DecidableEq

namespace Provenance

def fields : Fields Provenance :=
  (field "producer" Text.codec |>.and <| field "producer_version" Text.codec |>.and <|
    field "created_at" Timestamp.codec |>.and <| field "inputs" (Codec.tuple ArtifactRef.codec) |>.and <|
    field "evidence" (Codec.tuple EvidenceRecord.codec)).view
    (fun value => (value.producer, value.producerVersion, value.createdAt, value.inputs, value.evidence))
    (fun (producer, producerVersion, createdAt, inputs, evidence) =>
      if nonempty : evidence ≠ [] then
        some ⟨producer, producerVersion, createdAt, inputs, evidence, nonempty⟩
      else none)
    (fun value => by simp [value.nonempty])

def codec : Codec Provenance := fields.codec (by decide)

end Provenance

/-- What a solver sees; every part of it is public. -/
structure SolverView where
  instruction : ArtifactRef
  workspace : ArtifactRef
  publicChecks : List ArtifactRef
  runtimeManifest : ArtifactRef
  inventory : ArtifactRef
  onlyPublic : ∀ ref ∈ [instruction, workspace, runtimeManifest, inventory] ++ publicChecks,
    ref.visibility = .public
deriving DecidableEq

namespace SolverView

def fields : Fields SolverView :=
  (field "instruction" ArtifactRef.codec |>.and <| field "workspace" ArtifactRef.codec |>.and <|
    field "public_checks" (Codec.tuple ArtifactRef.codec) |>.and <|
    field "runtime_manifest" ArtifactRef.codec |>.and <| field "inventory" ArtifactRef.codec).view
    (fun view => (view.instruction, view.workspace, view.publicChecks, view.runtimeManifest, view.inventory))
    (fun (instruction, workspace, publicChecks, runtimeManifest, inventory) =>
      if onlyPublic : ∀ ref ∈ [instruction, workspace, runtimeManifest, inventory] ++ publicChecks,
          ref.visibility = .public then
        some ⟨instruction, workspace, publicChecks, runtimeManifest, inventory, onlyPublic⟩
      else none)
    (fun view => dif_pos view.onlyPublic)

def codec : Codec SolverView := fields.codec (by decide)

end SolverView

/-! ### Task bundles -/

/-- The payload of a task apart from its state and its qualification. -/
structure TaskSubject where
  visibility : Visibility
  provenance : Provenance
  costs : List CostRecord
  partition : Partition
  repositoryFamily : Identifier
  requestLineage : List Identifier
  sourcePair : ArtifactRef
  baseline : ArtifactRef
  solverView : SolverView
  contract : ArtifactRef
  environment : ArtifactRef
  adapterVersion : Text
  privateOracle : ArtifactRef
  referenceSolution : ArtifactRef
deriving DecidableEq

namespace TaskSubject

/-- The checks of a task that do not read its state. -/
def isValid (task : TaskSubject) : Bool :=
  task.visibility ∈ [Visibility.private, .evaluation] ∧ task.costs ≠ [] ∧ task.requestLineage ≠ [] ∧
    task.sourcePair.kind.val = "SourcePair" ∧ task.contract.kind.val = "RequirementContract" ∧
    task.environment.kind.val = "EnvironmentRecipe" ∧ task.privateOracle.kind.val = "VerifierBundle" ∧
    task.privateOracle.visibility ∈ [Visibility.private, .evaluation] ∧
    task.referenceSolution.visibility ∈ [Visibility.private, .evaluation]

def fields : Fields TaskSubject :=
  (field "kind" Codec.string |>.and <| field "schema_version" Codec.natural |>.and <|
    field "visibility" Visibility.codec |>.and <| field "provenance" Provenance.codec |>.and <|
    field "costs" (Codec.tuple CostRecord.codec) |>.and <| field "partition" Partition.codec |>.and <|
    field "repository_family" Identifier.codec |>.and <|
    field "request_lineage" (Codec.tuple Identifier.codec) |>.and <|
    field "source_pair" ArtifactRef.codec |>.and <| field "baseline" ArtifactRef.codec |>.and <|
    field "solver_view" SolverView.codec |>.and <| field "contract" ArtifactRef.codec |>.and <|
    field "environment" ArtifactRef.codec |>.and <| field "adapter_version" Text.codec |>.and <|
    field "private_oracle" ArtifactRef.codec |>.and <| field "reference_solution" ArtifactRef.codec).view
    (fun task => ("TaskBundle", 1, task.visibility, task.provenance, task.costs, task.partition,
      task.repositoryFamily, task.requestLineage, task.sourcePair, task.baseline, task.solverView,
      task.contract, task.environment, task.adapterVersion, task.privateOracle, task.referenceSolution))
    (fun (kind, schemaVersion, visibility, provenance, costs, partition, repositoryFamily, requestLineage,
        sourcePair, baseline, solverView, contract, environment, adapterVersion, privateOracle,
        referenceSolution) =>
      if kind = "TaskBundle" ∧ schemaVersion = 1 then
        some ⟨visibility, provenance, costs, partition, repositoryFamily, requestLineage, sourcePair, baseline,
          solverView, contract, environment, adapterVersion, privateOracle, referenceSolution⟩
      else none)
    (fun task => by simp)

/-- The document without the state and the qualification. -/
def codec : Codec TaskSubject := fields.codec (by decide)

end TaskSubject

/-- The states that need a qualification. -/
def TaskState.isAdmitted (state : TaskState) : Bool := state ∈ [qualified, released, calibrated]

structure TaskBundle where
  subject : TaskSubject
  state : TaskState
  qualification : Option ArtifactRef
  valid : subject.isValid = true
  reported : ∀ ref ∈ qualification, ref.kind.val = "QualificationReport"
  admitted : state.isAdmitted = true → qualification ≠ none
deriving DecidableEq

namespace TaskBundle

def create (subject : TaskSubject) (state : TaskState) (qualification : Option ArtifactRef) :
    Option TaskBundle :=
  if checks : subject.isValid = true ∧ (∀ ref ∈ qualification, ref.kind.val = "QualificationReport") ∧
      (state.isAdmitted = true → qualification ≠ none) then
    some ⟨subject, state, qualification, checks.1, checks.2.1, checks.2.2⟩
  else none

theorem create_eq_some {subject : TaskSubject} {state : TaskState} {qualification : Option ArtifactRef}
    {task : TaskBundle} (created : create subject state qualification = some task) :
    task.subject = subject ∧ task.state = state ∧ task.qualification = qualification := by
  rw [create] at created
  split at created
  next =>
    obtain rfl := Option.some.inj created
    exact ⟨rfl, rfl, rfl⟩
  next => cases created

theorem create_self (task : TaskBundle) :
    create task.subject task.state task.qualification = some task := by
  rw [create, dif_pos ⟨task.valid, task.reported, task.admitted⟩]

theorem ext_of {one two : TaskBundle} (subject : one.subject = two.subject) (state : one.state = two.state)
    (qualification : one.qualification = two.qualification) : one = two := by
  cases one
  cases two
  simp_all

def optionalRef : Codec (Option ArtifactRef) := ArtifactRef.codec.nullable rfl

def fields : Fields TaskBundle :=
  (TaskSubject.fields |>.and <| field "state" TaskState.codec |>.and <|
    field "qualification" optionalRef).view
    (fun task => (task.subject, task.state, task.qualification))
    (fun (subject, state, qualification) => create subject state qualification)
    create_self

def codec : Codec TaskBundle := fields.codec (by decide)

/-- The task read back with another state and qualification. -/
def moved (task : TaskBundle) (state : TaskState) (qualification : ArtifactRef) : Option TaskBundle :=
  fields.updated task [("state", TaskState.codec.document state),
    ("qualification", ArtifactRef.codec.document qualification)]

end TaskBundle

/-- Later manifests have the complete payload of the built one. -/
def unchanged (built later : TaskBundle) : Bool :=
  TaskSubject.codec.dump built.subject = TaskSubject.codec.dump later.subject

theorem unchanged_iff {built later : TaskBundle} :
    unchanged built later = true ↔ built.subject = later.subject := by
  rw [unchanged, decide_eq_true_eq, TaskSubject.codec.dump_injective.eq_iff]

end FeatureRl
