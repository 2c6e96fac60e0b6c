import FeatureRl.Contracts.Samples
import FeatureRl.Contracts.Values

/-!
The strict values of the registry: its limits, its records and its events. A value of one
of these types has passed the checks of its model.
-/

namespace FeatureRl

open Fields (field fieldOr)

/-! ### Constrained text and collections -/

def isName (text : String) : Bool :=
  text.toList.length ≤ 200 && isWord ['_', '.', ':', '-'] text

def isReason (text : String) : Bool := text.toList.length ≤ 4096 && isText text

def isSemanticKey (text : String) : Bool :=
  1 ≤ text.toList.length && text.toList.length ≤ 500

abbrev Name := {text : String // isName text = true}

abbrev Reason := {text : String // isReason text = true}

abbrev SemanticKey := {text : String // isSemanticKey text = true}

def Name.codec : Codec Name := Codec.string.refine isName

def Reason.codec : Codec Reason := Codec.string.refine isReason

def SemanticKey.codec : Codec SemanticKey := Codec.string.refine isSemanticKey

/-- At most ten thousand references. -/
abbrev Refs := {refs : List ArtifactRef // (refs.length ≤ 10000 : Bool) = true}

def Refs.codec : Codec Refs := (Codec.tuple ArtifactRef.codec).refine fun refs => refs.length ≤ 10000

def Refs.empty : Refs := ⟨[], rfl⟩

/-! ### Limits -/

/-- A positive number of seconds up to thirty. -/
abbrev LockTimeout :=
  {number : Binary64 // (decide (0 < number.value) && decide (number.value ≤ 30)) = true}

def LockTimeout.codec : Codec LockTimeout :=
  Codec.number.refine fun number => decide (0 < number.value) && decide (number.value ≤ 30)

def LockTimeout.oneSecond : LockTimeout := ⟨⟨false, 2 ^ 52, -52, oneFloat.canonical⟩, by decide +kernel⟩

structure RegistryLimits where
  maxActiveJobs : Bounded 1 1024
  maxJobs : Bounded 1 100000
  maxAttemptsPerJob : Bounded 1 100
  maxArtifacts : Bounded 1 100000
  maxClosureArtifacts : Bounded 1 10000
  maxGraphEdges : Bounded 1 100000
  maxEventBytes : Bounded 512 16777216
  maxEvents : Bounded 1 100000
  maxJournalBytes : Bounded 1024 1073741824
  maxDatabaseBytes : Bounded 65536 1073741824
  maxArtifactEnvelopeBytes : Bounded 128 67108864
  maxArtifactPayloadBytes : Bounded 0 67108864
  maxClosureBytes : Bounded 128 1073741824
  lockTimeoutSeconds : LockTimeout
deriving DecidableEq

namespace RegistryLimits

/-- The limits of a registry that is opened without any. -/
def default : RegistryLimits where
  maxActiveJobs := ⟨32, rfl⟩
  maxJobs := ⟨1000, rfl⟩
  maxAttemptsPerJob := ⟨3, rfl⟩
  maxArtifacts := ⟨10000, rfl⟩
  maxClosureArtifacts := ⟨256, rfl⟩
  maxGraphEdges := ⟨20000, rfl⟩
  maxEventBytes := ⟨262144, rfl⟩
  maxEvents := ⟨10000, rfl⟩
  maxJournalBytes := ⟨67108864, rfl⟩
  maxDatabaseBytes := ⟨134217728, rfl⟩
  maxArtifactEnvelopeBytes := ⟨8388608, rfl⟩
  maxArtifactPayloadBytes := ⟨4194304, rfl⟩
  maxClosureBytes := ⟨33554432, rfl⟩
  lockTimeoutSeconds := LockTimeout.oneSecond

def fields : Fields RegistryLimits :=
  (fieldOr "max_active_jobs" (Bounded.codec 1 1024) default.maxActiveJobs |>.and <|
    fieldOr "max_jobs" (Bounded.codec 1 100000) default.maxJobs |>.and <|
    fieldOr "max_attempts_per_job" (Bounded.codec 1 100) default.maxAttemptsPerJob |>.and <|
    fieldOr "max_artifacts" (Bounded.codec 1 100000) default.maxArtifacts |>.and <|
    fieldOr "max_closure_artifacts" (Bounded.codec 1 10000) default.maxClosureArtifacts |>.and <|
    fieldOr "max_graph_edges" (Bounded.codec 1 100000) default.maxGraphEdges |>.and <|
    fieldOr "max_event_bytes" (Bounded.codec 512 16777216) default.maxEventBytes |>.and <|
    fieldOr "max_events" (Bounded.codec 1 100000) default.maxEvents |>.and <|
    fieldOr "max_journal_bytes" (Bounded.codec 1024 1073741824) default.maxJournalBytes |>.and <|
    fieldOr "max_database_bytes" (Bounded.codec 65536 1073741824) default.maxDatabaseBytes |>.and <|
    fieldOr "max_artifact_envelope_bytes" (Bounded.codec 128 67108864) default.maxArtifactEnvelopeBytes |>.and <|
    fieldOr "max_artifact_payload_bytes" (Bounded.codec 0 67108864) default.maxArtifactPayloadBytes |>.and <|
    fieldOr "max_closure_bytes" (Bounded.codec 128 1073741824) default.maxClosureBytes |>.and <|
    fieldOr "lock_timeout_seconds" LockTimeout.codec default.lockTimeoutSeconds).view
    (fun limits => (limits.maxActiveJobs, limits.maxJobs, limits.maxAttemptsPerJob,
      limits.maxArtifacts, limits.maxClosureArtifacts, limits.maxGraphEdges, limits.maxEventBytes,
      limits.maxEvents, limits.maxJournalBytes, limits.maxDatabaseBytes,
      limits.maxArtifactEnvelopeBytes, limits.maxArtifactPayloadBytes, limits.maxClosureBytes,
      limits.lockTimeoutSeconds))
    (fun (active, jobs, attempts, artifacts, closure, edges, eventBytes, events, journal,
        database, envelope, payload, closureBytes, timeout) =>
      some ⟨active, jobs, attempts, artifacts, closure, edges, eventBytes, events, journal,
        database, envelope, payload, closureBytes, timeout⟩)
    (fun _ => rfl)

def codec : Codec RegistryLimits := fields.codec (by decide)

/-- The limits that an expansion may raise. -/
def capacities (limits : RegistryLimits) : List Nat :=
  [limits.maxJobs, limits.maxArtifacts, limits.maxClosureArtifacts, limits.maxGraphEdges,
    limits.maxEventBytes, limits.maxEvents, limits.maxJournalBytes, limits.maxDatabaseBytes,
    limits.maxArtifactEnvelopeBytes, limits.maxArtifactPayloadBytes, limits.maxClosureBytes]

/-- The execution and lock policy that an expansion keeps. -/
def policy (limits : RegistryLimits) : Nat × Nat × LockTimeout :=
  (limits.maxActiveJobs, limits.maxAttemptsPerJob, limits.lockTimeoutSeconds)

end RegistryLimits

/-- Capacities only grow, at least one of them does, and the policy is the same. -/
def capacityOnly (before after : RegistryLimits) : Bool :=
  before.policy = after.policy &&
    (before.capacities.zip after.capacities).all (fun (old, new) => decide (old ≤ new)) &&
    before ≠ after

/-- Limits that keep the policy and shrink no capacity. -/
structure RegistryLimits.Le (before after : RegistryLimits) : Prop where
  policy : before.policy = after.policy
  capacities : List.Forall₂ (· ≤ ·) before.capacities after.capacities

theorem RegistryLimits.Le.of_capacityOnly {before after : RegistryLimits}
    (expands : capacityOnly before after = true) : before.Le after := by
  simp only [capacityOnly, Bool.and_eq_true, decide_eq_true_eq] at expands
  refine ⟨expands.1.1, List.forall₂_iff_zip.mpr ⟨rfl, ?_⟩⟩
  intro old new paired
  simpa using List.all_eq_true.mp expands.1.2 (old, new) paired

theorem RegistryLimits.Le.refl (limits : RegistryLimits) : limits.Le limits :=
  ⟨rfl, List.forall₂_refl _⟩

theorem RegistryLimits.Le.trans {first second third : RegistryLimits} (below : first.Le second)
    (above : second.Le third) : first.Le third where
  policy := below.policy.trans above.policy
  capacities := by
    have lower := below.capacities
    have upper := above.capacities
    simp only [RegistryLimits.capacities, List.forall₂_cons, List.Forall₂.nil, and_true] at lower upper ⊢
    omega

structure LimitExpansion where
  previousLimits : RegistryLimits
  limits : RegistryLimits
  reason : Reason
  expands : capacityOnly previousLimits limits = true

namespace LimitExpansion

def build (previousLimits limits : RegistryLimits) (reason : Reason) : Option LimitExpansion :=
  if expands : capacityOnly previousLimits limits = true then
    some ⟨previousLimits, limits, reason, expands⟩
  else none

def fields : Fields LimitExpansion :=
  (field "previous_limits" RegistryLimits.codec |>.and <|
    field "limits" RegistryLimits.codec |>.and <| field "reason" Reason.codec).view
    (fun expansion => (expansion.previousLimits, expansion.limits, expansion.reason))
    (fun (previousLimits, limits, reason) => build previousLimits limits reason)
    (fun expansion => by simp [build, expansion.expands])

def codec : Codec LimitExpansion := fields.codec (by decide)

theorem le (expansion : LimitExpansion) : expansion.previousLimits.Le expansion.limits :=
  RegistryLimits.Le.of_capacityOnly expansion.expands

end LimitExpansion

/-! ### Records -/

structure ArtifactRecord where
  ref : ArtifactRef
  dependencies : Refs
deriving DecidableEq

namespace ArtifactRecord

def fields : Fields ArtifactRecord :=
  (field "ref" ArtifactRef.codec |>.and <| field "dependencies" Refs.codec).view
    (fun record => (record.ref, record.dependencies))
    (fun (ref, dependencies) => some ⟨ref, dependencies⟩)
    (fun _ => rfl)

def codec : Codec ArtifactRecord := fields.codec (by decide)

end ArtifactRecord

structure JobSpec where
  operation : Operation
  inputs : Refs
  configuration : ArtifactRef
  implementation : Revision
  invocation : Name
  attemptLimit : Bounded 1 100
  distinct : inputs.val ≠ [] ∧ inputs.val.Nodup
deriving DecidableEq

namespace JobSpec

def fields : Fields JobSpec :=
  (field "operation" Operation.codec |>.and <| field "inputs" Refs.codec |>.and <|
    field "configuration" ArtifactRef.codec |>.and <|
    field "implementation" Revision.codec |>.and <| field "invocation" Name.codec |>.and <|
    field "attempt_limit" (Bounded.codec 1 100)).view
    (fun spec => (spec.operation, spec.inputs, spec.configuration, spec.implementation,
      spec.invocation, spec.attemptLimit))
    (fun (operation, inputs, configuration, implementation, invocation, attemptLimit) =>
      if distinct : inputs.val ≠ [] ∧ inputs.val.Nodup then
        some ⟨operation, inputs, configuration, implementation, invocation, attemptLimit,
          distinct⟩
      else none)
    (fun spec => by simp [spec.distinct])

def codec : Codec JobSpec := fields.codec (by decide)

end JobSpec

structure Claim where
  jobId : Digest
  attemptId : Digest
  owner : Name
  claimKey : Name
  token : Digest
deriving DecidableEq

namespace Claim

def fields : Fields Claim :=
  (field "job_id" Digest.codec |>.and <| field "attempt_id" Digest.codec |>.and <|
    field "owner" Name.codec |>.and <| field "claim_key" Name.codec |>.and <|
    field "token" Digest.codec).view
    (fun claim => (claim.jobId, claim.attemptId, claim.owner, claim.claimKey, claim.token))
    (fun (jobId, attemptId, owner, claimKey, token) =>
      some ⟨jobId, attemptId, owner, claimKey, token⟩)
    (fun _ => rfl)

def codec : Codec Claim := fields.codec (by decide)

end Claim

inductive AttemptState where
  | running | abandoned | completed
deriving DecidableEq

namespace AttemptState

def name : AttemptState → String
  | running => "running"
  | abandoned => "abandoned"
  | completed => "completed"

def codec : Codec AttemptState :=
  enumeration [running, abandoned, completed] name fun value => by cases value <;> decide

end AttemptState

structure AttemptRecord where
  claim : Claim
  state : AttemptState
  reason : Option Reason
  evidence : Refs
deriving DecidableEq

/-- A reason or `null`. -/
def Reason.optional : Codec (Option Reason) := Reason.codec.nullable rfl

namespace AttemptRecord

def fields : Fields AttemptRecord :=
  (field "claim" Claim.codec |>.and <| field "state" AttemptState.codec |>.and <|
    field "reason" Reason.optional |>.and <| field "evidence" Refs.codec).view
    (fun attempt => (attempt.claim, attempt.state, attempt.reason, attempt.evidence))
    (fun (claim, state, reason, evidence) => some ⟨claim, state, reason, evidence⟩)
    (fun _ => rfl)

def codec : Codec AttemptRecord := fields.codec (by decide)

theorem members_eq (attempt : AttemptRecord) : fields.members attempt =
    [("claim", Claim.codec.document attempt.claim),
      ("state", AttemptState.codec.document attempt.state),
      ("reason", Reason.optional.document attempt.reason),
      ("evidence", Refs.codec.document attempt.evidence)] := rfl

theorem updated_state (attempt : AttemptRecord) (state : AttemptState) :
    fields.updated attempt [("state", AttemptState.codec.document state)] =
      some { attempt with state } := by
  apply Fields.updated_eq_some
  simp [members_eq, List.lookup_cons, List.lookup_nil]

theorem updated_reason (attempt : AttemptRecord) (reason evidence : Json) :
    fields.updated attempt [("reason", reason), ("evidence", evidence)] = (do
      let reason ← Reason.optional.validate reason
      let evidence ← Refs.codec.validate evidence
      some { attempt with reason, evidence }) := by
  simp [Fields.updated, fields, List.lookup_cons, List.lookup_nil, Codec.validate_document, Option.bind_assoc]

theorem updated_state_reason (attempt : AttemptRecord) (state : AttemptState)
    (reason evidence : Json) :
    fields.updated attempt [("state", AttemptState.codec.document state), ("reason", reason),
      ("evidence", evidence)] = (do
      let reason ← Reason.optional.validate reason
      let evidence ← Refs.codec.validate evidence
      some { attempt with state, reason, evidence }) := by
  simp [Fields.updated, fields, List.lookup_cons, List.lookup_nil, Codec.validate_document, Option.bind_assoc]

end AttemptRecord

inductive JobState where
  | queued | running | paused | exhausted | completed
deriving DecidableEq

namespace JobState

def name : JobState → String
  | queued => "queued"
  | running => "running"
  | paused => "paused"
  | exhausted => "exhausted"
  | completed => "completed"

def codec : Codec JobState :=
  enumeration [queued, running, paused, exhausted, completed] name
    fun value => by cases value <;> decide

/-- The states that count against the active-job limit. -/
def active (state : JobState) : Bool := state = queued || state = running || state = paused

end JobState

structure JobRecord where
  jobId : Digest
  spec : JobSpec
  state : JobState
  attempts : List Digest
  result : Option OperationResult
  resultObservations : List Digest
deriving DecidableEq

namespace JobRecord

def fields : Fields JobRecord :=
  (field "job_id" Digest.codec |>.and <| field "spec" JobSpec.codec |>.and <|
    field "state" JobState.codec |>.and <|
    field "attempts" (Codec.tuple Digest.codec) |>.and <|
    field "result" (OperationResult.codec.nullable rfl) |>.and <|
    field "result_observations" (Codec.tuple Digest.codec)).view
    (fun job => (job.jobId, job.spec, job.state, job.attempts, job.result,
      job.resultObservations))
    (fun (jobId, spec, state, attempts, result, resultObservations) =>
      some ⟨jobId, spec, state, attempts, result, resultObservations⟩)
    (fun _ => rfl)

def codec : Codec JobRecord := fields.codec (by decide)

theorem members_eq (job : JobRecord) : fields.members job =
    [("job_id", Digest.codec.document job.jobId), ("spec", JobSpec.codec.document job.spec),
      ("state", JobState.codec.document job.state),
      ("attempts", (Codec.tuple Digest.codec).document job.attempts),
      ("result", (OperationResult.codec.nullable rfl).document job.result),
      ("result_observations", (Codec.tuple Digest.codec).document job.resultObservations)] := rfl

theorem updated_state (job : JobRecord) (state : JobState) :
    fields.updated job [("state", JobState.codec.document state)] = some { job with state } := by
  apply Fields.updated_eq_some
  simp [members_eq, List.lookup_cons, List.lookup_nil]

theorem updated_attempts (job : JobRecord) (state : JobState) (attempts : List Digest) :
    fields.updated job [("state", JobState.codec.document state),
      ("attempts", (Codec.tuple Digest.codec).document attempts)] =
        some { job with state, attempts } := by
  apply Fields.updated_eq_some
  simp [members_eq, List.lookup_cons, List.lookup_nil]

theorem updated_result (job : JobRecord) (state : JobState) (result : OperationResult)
    (resultObservations : List Digest) :
    fields.updated job [("state", JobState.codec.document state),
      ("result", OperationResult.codec.document result),
      ("result_observations", (Codec.tuple Digest.codec).document resultObservations)] =
        some { job with state, result := some result, resultObservations } := by
  apply Fields.updated_eq_some
  simp [members_eq, List.lookup_cons, List.lookup_nil, Codec.nullable]

end JobRecord

/-- A cumulative snapshot for one upstream attempt. -/
structure CostObservation where
  source : Name
  upstreamAttemptId : Name
  revision : Bounded 1 10000
  receipts : Refs
  costs : List CostRecord
  nonempty : receipts.val ≠ [] ∧ costs ≠ [] ∧ costs.length ≤ 64
  uniqueChannels : (costs.map CostRecord.category).Nodup ∧ receipts.val.Nodup
deriving DecidableEq

namespace CostObservation

def fields : Fields CostObservation :=
  (field "source" Name.codec |>.and <| field "upstream_attempt_id" Name.codec |>.and <|
    field "revision" (Bounded.codec 1 10000) |>.and <| field "receipts" Refs.codec |>.and <|
    field "costs" (Codec.tuple CostRecord.codec)).view
    (fun observation => (observation.source, observation.upstreamAttemptId, observation.revision,
      observation.receipts, observation.costs))
    (fun (source, upstreamAttemptId, revision, receipts, costs) =>
      if nonempty : receipts.val ≠ [] ∧ costs ≠ [] ∧ costs.length ≤ 64 then
        if unique : (costs.map CostRecord.category).Nodup ∧ receipts.val.Nodup then
          some ⟨source, upstreamAttemptId, revision, receipts, costs, nonempty, unique⟩
        else none
      else none)
    (fun observation => by simp [observation.nonempty, observation.uniqueChannels])

def codec : Codec CostObservation := fields.codec (by decide)

end CostObservation

structure ObservationRecord where
  observationId : Digest
  attemptId : Digest
  observation : CostObservation
deriving DecidableEq

namespace ObservationRecord

def fields : Fields ObservationRecord :=
  (field "observation_id" Digest.codec |>.and <| field "attempt_id" Digest.codec |>.and <|
    field "observation" CostObservation.codec).view
    (fun record => (record.observationId, record.attemptId, record.observation))
    (fun (observationId, attemptId, observation) =>
      some ⟨observationId, attemptId, observation⟩)
    (fun _ => rfl)

def codec : Codec ObservationRecord := fields.codec (by decide)

end ObservationRecord

structure AccountingReport where
  observations : List ObservationRecord
  unobservedAttempts : List Digest
deriving DecidableEq

structure QuarantineNotice where
  noticeId : Name
  root : ArtifactRef
  reason : Reason
  evidence : Refs
  active : Bool
  resolutionReason : Option Reason
  resolutionEvidence : Refs
  nonempty : evidence.val ≠ []
deriving DecidableEq

namespace QuarantineNotice

def fields : Fields QuarantineNotice :=
  (field "notice_id" Name.codec |>.and <| field "root" ArtifactRef.codec |>.and <|
    field "reason" Reason.codec |>.and <| field "evidence" Refs.codec |>.and <|
    field "active" Codec.boolean |>.and <| field "resolution_reason" Reason.optional |>.and <|
    field "resolution_evidence" Refs.codec).view
    (fun notice => (notice.noticeId, notice.root, notice.reason, notice.evidence, notice.active,
      notice.resolutionReason, notice.resolutionEvidence))
    (fun (noticeId, root, reason, evidence, active, resolutionReason, resolutionEvidence) =>
      if nonempty : evidence.val ≠ [] then
        some ⟨noticeId, root, reason, evidence, active, resolutionReason, resolutionEvidence,
          nonempty⟩
      else none)
    (fun notice => by simp [notice.nonempty])

def codec : Codec QuarantineNotice := fields.codec (by decide)

theorem updated_resolution (notice : QuarantineNotice) (reason evidence : Json) :
    fields.updated notice [("active", .bool false), ("resolution_reason", reason),
      ("resolution_evidence", evidence)] = (do
      let resolutionReason ← Reason.optional.validate reason
      let resolutionEvidence ← Refs.codec.validate evidence
      some { notice with active := false, resolutionReason, resolutionEvidence }) := by
  have active : Codec.boolean.validate (.bool false) = some false := rfl
  simp only [Fields.updated, fields, Fields.view_read, Fields.and_read, Fields.field_read,
    Fields.view_members, Fields.and_members, Fields.field_members, List.cons_append, List.nil_append]
  simp [List.lookup_cons, List.lookup_nil, Codec.validate_document, active]
  cases Reason.optional.validate reason with
  | none => rfl
  | some reason =>
      cases Refs.codec.validate evidence with
      | none => rfl
      | some evidence => exact dif_neg notice.nonempty

end QuarantineNotice

/-! ### Events -/

inductive Action where
  | register | enqueue | claim | abandon | retry | reconcile | complete | quarantine | lift
  | expandLimits
deriving DecidableEq

namespace Action

def all : List Action :=
  [register, enqueue, claim, abandon, retry, reconcile, complete, quarantine, lift, expandLimits]

def name : Action → String
  | register => "register"
  | enqueue => "enqueue"
  | claim => "claim"
  | abandon => "abandon"
  | retry => "retry"
  | reconcile => "reconcile"
  | complete => "complete"
  | quarantine => "quarantine"
  | lift => "lift"
  | expandLimits => "expand_limits"

def codec : Codec Action := enumeration all name fun value => by cases value <;> decide

end Action

/-- A dictionary whose values are arbitrary JSON. -/
abbrev EventData := {members : Json.Members // (Json.obj members).normal = true}

def EventData.codec : Codec EventData where
  document data := .obj data.val
  validate
    | .obj members => Codec.check (fun members => (Json.obj members).normal) members
    | _ => none
  normal data := data.property
  validate_document data := Codec.check_val _ data

namespace EventData

/-- The dictionary with these members. -/
def ofMembers (members : Json.Members) (unique : (members.map Prod.fst).Nodup)
    (normal : ∀ member ∈ members, member.2.normal = true) : EventData :=
  ⟨Json.sortMembers members, Json.normal_dict unique normal⟩

end EventData

structure RegistryEvent where
  sequence : Nat
  eventId : Digest
  previous : Digest
  semanticKey : SemanticKey
  recordedAt : Timestamp
  action : Action
  data : EventData
  positive : 1 ≤ sequence

namespace RegistryEvent

/-- The members that the event identity covers. -/
def unsigned : Fields (Nat × Digest × SemanticKey × Timestamp × Action × EventData) :=
  field "sequence" Codec.natural |>.and <| field "previous" Digest.codec |>.and <|
    field "semantic_key" SemanticKey.codec |>.and <|
    field "recorded_at" Timestamp.codec |>.and <| field "action" Action.codec |>.and <|
    field "data" EventData.codec

def content (event : RegistryEvent) :
    Nat × Digest × SemanticKey × Timestamp × Action × EventData :=
  (event.sequence, event.previous, event.semanticKey, event.recordedAt, event.action, event.data)

def fields : Fields RegistryEvent :=
  (field "event_id" Digest.codec |>.and unsigned).view
    (fun event => (event.eventId, event.content))
    (fun (eventId, sequence, previous, semanticKey, recordedAt, action, data) =>
      if positive : 1 ≤ sequence then
        some ⟨sequence, eventId, previous, semanticKey, recordedAt, action, data, positive⟩
      else none)
    (fun event => by simp [content, event.positive])

def codec : Codec RegistryEvent := fields.codec (by decide)

end RegistryEvent

structure RecoveryReport where
  eventCount : Nat
  appendedBytes : Nat
  completedTailBytes : Nat
deriving DecidableEq

end FeatureRl
