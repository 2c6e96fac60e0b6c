import FeatureRl.Lib.Codec
import FeatureRl.Lib.Timestamp

/-!
The strict contract values shared by every service. A value of one of these types has
passed its constructor's checks, so each type carries them.
-/

namespace FeatureRl

/-! ### Constrained text -/

/-- The characters that the pattern class `\s` matches. -/
def isBlank (c : Char) : Bool :=
  let code := c.toNat
  (9 ≤ code && code ≤ 13) || code == 32 || code == 0x85 || code == 0xA0 || code == 0x1680 ||
    (0x2000 ≤ code && code ≤ 0x200A) || code == 0x2028 || code == 0x2029 || code == 0x202F ||
    code == 0x205F || code == 0x3000

def isLowerHex (c : Char) : Bool := ('0' ≤ c && c ≤ '9') || ('a' ≤ c && c ≤ 'f')

def isAlphanumeric (c : Char) : Bool :=
  ('0' ≤ c && c ≤ '9') || ('a' ≤ c && c ≤ 'z') || ('A' ≤ c && c ≤ 'Z')

def isText (text : String) : Bool := text.toList.any fun c => !isBlank c

def isDigest (text : String) : Bool := text.toList.length == 64 && text.toList.all isLowerHex

def isRevision (text : String) : Bool :=
  (text.toList.length == 40 || text.toList.length == 64) && text.toList.all isLowerHex

/-- `^[A-Za-z0-9][A-Za-z0-9_.-]*$` with further characters allowed after the first. -/
def isWord (further : List Char) (text : String) : Bool :=
  match text.toList with
  | [] => false
  | first :: rest => isAlphanumeric first && rest.all fun c => isAlphanumeric c || c ∈ further

def isIdentifier (text : String) : Bool := isWord ['_', '.', '-'] text

abbrev Text := {text : String // isText text = true}

abbrev Digest := {text : String // isDigest text = true}

abbrev Revision := {text : String // isRevision text = true}

abbrev Identifier := {text : String // isIdentifier text = true}

def Text.codec : Codec Text := Codec.string.refine isText

def Digest.codec : Codec Digest := Codec.string.refine isDigest

def Revision.codec : Codec Revision := Codec.string.refine isRevision

def Identifier.codec : Codec Identifier := Codec.string.refine isIdentifier

/-- A double that is at least zero; negative zero is. -/
abbrev NonnegativeFloat := {number : Binary64 // (!number.negative || number.mantissa == 0) = true}

def NonnegativeFloat.codec : Codec NonnegativeFloat :=
  Codec.number.refine fun number => !number.negative || number.mantissa == 0

def Timestamp.codec : Codec Timestamp :=
  Codec.string.view (fun time => String.ofList time.format)
    (fun text => Timestamp.parse text.toList) (fun time => by
      rw [String.toList_ofList, Timestamp.parse_format])

/-! ### Enumerations -/

/-- The members of an enumeration dumped as their names. -/
def enumeration {α : Type} (all : List α) (name : α → String)
    (find : ∀ value, all.find? (fun other => name other == name value) = some value) : Codec α :=
  Codec.string.view name (fun text => all.find? fun other => name other == text) find

inductive Visibility where
  | «public» | authoring | «private» | training | evaluation | internal
deriving DecidableEq

namespace Visibility

def all : List Visibility :=
  [Visibility.public, authoring, Visibility.private, training, evaluation, internal]

def name : Visibility → String
  | Visibility.public => "public"
  | authoring => "authoring"
  | Visibility.private => "private"
  | training => "training"
  | evaluation => "evaluation"
  | internal => "internal"

def codec : Codec Visibility := enumeration all name fun value => by cases value <;> decide

end Visibility

inductive Partition where
  | train | development | lockedTest | unassigned
deriving DecidableEq

namespace Partition

def name : Partition → String
  | train => "train"
  | development => "development"
  | lockedTest => "locked_test"
  | unassigned => "unassigned"

end Partition

inductive ActorRole where
  | solver | author | controller | trainer | evaluator | reviewer
deriving DecidableEq

inductive Disposition where
  | success | rejected | unsupported | invalid | infrastructure | blocked | provisional
deriving DecidableEq

namespace Disposition

def all : List Disposition :=
  [success, rejected, unsupported, invalid, infrastructure, blocked, provisional]

def name : Disposition → String
  | success => "success"
  | rejected => "candidate_rejection"
  | unsupported => "unsupported_semantics"
  | invalid => "invalid_measurement"
  | infrastructure => "infrastructure_failure"
  | blocked => "blocked_dependency"
  | provisional => "provisional"

def codec : Codec Disposition := enumeration all name fun value => by cases value <;> decide

end Disposition

inductive Encoding where
  | json | bytes
deriving DecidableEq

namespace Encoding

def name : Encoding → String
  | json => "json"
  | bytes => "bytes"

def codec : Codec Encoding := enumeration [json, bytes] name fun value => by cases value <;> decide

end Encoding

inductive Operation where
  | construct | qualify | release | run | grade | audit | train | evaluate
deriving DecidableEq

namespace Operation

def all : List Operation := [construct, qualify, release, run, grade, audit, train, evaluate]

def name : Operation → String
  | construct => "construct"
  | qualify => "qualify"
  | release => "release"
  | run => "run"
  | grade => "grade"
  | audit => "audit"
  | train => "train"
  | evaluate => "evaluate"

def codec : Codec Operation := enumeration all name fun value => by cases value <;> decide

end Operation

inductive CostCategory where
  | discovery | authoring | construction | rejection | repair | reference | alternative
  | verifier | humanReview | rollout | training | execution | storage | evaluation
deriving DecidableEq

namespace CostCategory

def all : List CostCategory :=
  [discovery, authoring, construction, rejection, repair, reference, alternative, verifier,
    humanReview, rollout, training, execution, storage, evaluation]

def name : CostCategory → String
  | discovery => "discovery"
  | authoring => "authoring"
  | construction => "construction"
  | rejection => "rejection"
  | repair => "repair"
  | reference => "reference"
  | alternative => "alternative"
  | verifier => "verifier"
  | humanReview => "human_review"
  | rollout => "rollout"
  | training => "training"
  | execution => "execution"
  | storage => "storage"
  | evaluation => "evaluation"

def codec : Codec CostCategory := enumeration all name fun value => by cases value <;> decide

end CostCategory

inductive Measurement where
  | measured | incomplete | unknown
deriving DecidableEq

namespace Measurement

def name : Measurement → String
  | measured => "measured"
  | incomplete => "partial"
  | unknown => "unknown"

def codec : Codec Measurement :=
  enumeration [measured, incomplete, unknown] name fun value => by cases value <;> decide

end Measurement

inductive EvidenceScope where
  | realIntegration | unitDiagnostic | sourceInspection | humanReview
deriving DecidableEq

namespace EvidenceScope

def name : EvidenceScope → String
  | realIntegration => "real_integration"
  | unitDiagnostic => "unit_diagnostic"
  | sourceInspection => "source_inspection"
  | humanReview => "human_review"

def codec : Codec EvidenceScope :=
  enumeration [realIntegration, unitDiagnostic, sourceInspection, humanReview] name
    fun value => by cases value <;> decide

end EvidenceScope

/-! ### Records -/

open Fields (field)

structure ArtifactRef where
  sha256 : Digest
  kind : Identifier
  schemaVersion : Nat
  visibility : Visibility
  encoding : Encoding
  bounded : 1 ≤ schemaVersion ∧ schemaVersion ≤ 2
deriving DecidableEq

namespace ArtifactRef

def fields : Fields ArtifactRef :=
  (field "sha256" Digest.codec |>.and <| field "kind" Identifier.codec |>.and <|
    field "schema_version" Codec.natural |>.and <| field "visibility" Visibility.codec |>.and <|
    field "encoding" Encoding.codec).view
    (fun ref => (ref.sha256, ref.kind, ref.schemaVersion, ref.visibility, ref.encoding))
    (fun (sha256, kind, schemaVersion, visibility, encoding) =>
      if bounded : 1 ≤ schemaVersion ∧ schemaVersion ≤ 2 then
        some ⟨sha256, kind, schemaVersion, visibility, encoding, bounded⟩
      else none)
    (fun ref => by simp [ref.bounded])

def codec : Codec ArtifactRef := fields.codec (by decide)

end ArtifactRef

structure EvidenceRecord where
  producer : Text
  command : List Text
  recordedAt : Timestamp
  exitStatus : Int
  artifacts : List ArtifactRef
  revision : Revision
  scope : EvidenceScope
  nonempty : command ≠ [] ∧ artifacts ≠ []
deriving DecidableEq

namespace EvidenceRecord

def fields : Fields EvidenceRecord :=
  (field "producer" Text.codec |>.and <| field "command" (Codec.tuple Text.codec) |>.and <|
    field "recorded_at" Timestamp.codec |>.and <| field "exit_status" Codec.integer |>.and <|
    field "artifacts" (Codec.tuple ArtifactRef.codec) |>.and <|
    field "revision" Revision.codec |>.and <| field "scope" EvidenceScope.codec).view
    (fun record => (record.producer, record.command, record.recordedAt, record.exitStatus,
      record.artifacts, record.revision, record.scope))
    (fun (producer, command, recordedAt, exitStatus, artifacts, revision, scope) =>
      if nonempty : command ≠ [] ∧ artifacts ≠ [] then
        some ⟨producer, command, recordedAt, exitStatus, artifacts, revision, scope, nonempty⟩
      else none)
    (fun record => by simp [record.nonempty])

def codec : Codec EvidenceRecord := fields.codec (by decide)

end EvidenceRecord

/-- An unknown cost has no measurement, a measured one has all, a partial one has some. -/
def measurementConsistency (measurement : Measurement) (known : List Bool) : Bool :=
  match measurement with
  | .unknown => !known.any id
  | .measured => known.all id
  | .incomplete => known.any id

structure CostRecord where
  category : CostCategory
  wallSeconds : Option NonnegativeFloat
  cpuSeconds : Option NonnegativeFloat
  gpuSeconds : Option NonnegativeFloat
  inputTokens : Option Nat
  outputTokens : Option Nat
  humanMinutes : Option NonnegativeFloat
  usd : Option NonnegativeFloat
  measurement : Measurement
  note : Text
  consistent : measurementConsistency measurement
    [wallSeconds.isSome, cpuSeconds.isSome, gpuSeconds.isSome, inputTokens.isSome,
      outputTokens.isSome, humanMinutes.isSome, usd.isSome] = true
deriving DecidableEq

namespace CostRecord

def optionalFloat : Codec (Option NonnegativeFloat) := NonnegativeFloat.codec.nullable rfl

def optionalCount : Codec (Option Nat) := Codec.natural.nullable rfl

def fields : Fields CostRecord :=
  (field "category" CostCategory.codec |>.and <| field "wall_seconds" optionalFloat |>.and <|
    field "cpu_seconds" optionalFloat |>.and <| field "gpu_seconds" optionalFloat |>.and <|
    field "input_tokens" optionalCount |>.and <| field "output_tokens" optionalCount |>.and <|
    field "human_minutes" optionalFloat |>.and <| field "usd" optionalFloat |>.and <|
    field "measurement" Measurement.codec |>.and <| field "note" Text.codec).view
    (fun cost => (cost.category, cost.wallSeconds, cost.cpuSeconds, cost.gpuSeconds,
      cost.inputTokens, cost.outputTokens, cost.humanMinutes, cost.usd, cost.measurement,
      cost.note))
    (fun (category, wall, cpu, gpu, input, output, human, usd, measurement, note) =>
      if consistent : measurementConsistency measurement [wall.isSome, cpu.isSome, gpu.isSome,
          input.isSome, output.isSome, human.isSome, usd.isSome] = true then
        some ⟨category, wall, cpu, gpu, input, output, human, usd, measurement, note, consistent⟩
      else none)
    (fun cost => by simp [cost.consistent])

def codec : Codec CostRecord := fields.codec (by decide)

/-- The measured dimensions in the order of the accounting checks. -/
def dimensions (cost : CostRecord) : List (Option ℚ) :=
  [cost.wallSeconds.map (·.val.value), cost.cpuSeconds.map (·.val.value),
    cost.gpuSeconds.map (·.val.value), cost.inputTokens.map (fun count => (count : ℚ)),
    cost.outputTokens.map (fun count => (count : ℚ)), cost.humanMinutes.map (·.val.value),
    cost.usd.map (·.val.value)]

/-- Equality of records, in which numbers compare by value: the two zeros are equal. -/
def equal (first second : CostRecord) : Bool :=
  first.category = second.category && first.dimensions = second.dimensions &&
    first.measurement = second.measurement && first.note = second.note

end CostRecord

/-- A success has artifacts, evidence and a producer that exited with status zero. -/
def successfulEvidence (disposition : Disposition) (artifacts : List ArtifactRef)
    (evidence : List EvidenceRecord) : Bool :=
  disposition != .success ||
    (!evidence.isEmpty && !artifacts.isEmpty && evidence.any fun record => record.exitStatus == 0)

structure OperationResult where
  operation : Operation
  disposition : Disposition
  artifacts : List ArtifactRef
  evidence : List EvidenceRecord
  costs : List CostRecord
  reason : Text
  valid : costs ≠ [] ∧ successfulEvidence disposition artifacts evidence = true
deriving DecidableEq

namespace OperationResult

def fields : Fields OperationResult :=
  (field "operation" Operation.codec |>.and <| field "disposition" Disposition.codec |>.and <|
    field "artifacts" (Codec.tuple ArtifactRef.codec) |>.and <|
    field "evidence" (Codec.tuple EvidenceRecord.codec) |>.and <|
    field "costs" (Codec.tuple CostRecord.codec) |>.and <| field "reason" Text.codec).view
    (fun result => (result.operation, result.disposition, result.artifacts, result.evidence,
      result.costs, result.reason))
    (fun (operation, disposition, artifacts, evidence, costs, reason) =>
      if valid : costs ≠ [] ∧ successfulEvidence disposition artifacts evidence = true then
        some ⟨operation, disposition, artifacts, evidence, costs, reason, valid⟩
      else none)
    (fun result => by simp [result.valid])

def codec : Codec OperationResult := fields.codec (by decide)

/-- The artifacts that the evidence of a result cites. -/
def evidenceArtifacts (result : OperationResult) : List ArtifactRef :=
  result.evidence.flatMap EvidenceRecord.artifacts

end OperationResult

end FeatureRl
