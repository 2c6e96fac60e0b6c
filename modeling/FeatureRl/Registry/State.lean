import FeatureRl.Lib.Checked
import FeatureRl.Lib.Fixpoint
import FeatureRl.Lib.Kahn
import FeatureRl.Lib.Worklist
import FeatureRl.Registry.Models

/-!
The registry state and the events that change it. `apply` is the whole state machine: it
returns the next state or the failure that refuses the event.
-/

namespace FeatureRl

open Checked

inductive ErrorKind where
  | integrity | io | conflict | limit | backpressure | attemptLimit | claimConflict | staleClaim
  | quarantined | unknownIdentity | validation | lookup | type | unfinished
deriving DecidableEq

structure Failure where
  kind : ErrorKind
  message : String
deriving DecidableEq

abbrev Outcome (α : Type) := Except Failure α

/-- A value that its model refuses. -/
def invalid : Failure := ⟨.validation, "validation error"⟩

def validated {α : Type} (codec : Codec α) (value : Json) : Outcome α :=
  require (codec.validate value) invalid

/-- The digest of a value's canonical document. -/
def identity (sha256 : Bytes → Digest) (value : Json) : Digest := sha256 value.canonical

/-- A member of an event payload whose shape has been checked. -/
def member (data : Json.Members) (key : String) : Json := (data.lookup key).getD .null

/-- Index a dictionary by a JSON value; lists and dictionaries cannot be keys. -/
def lookupBy {test : String → Bool} {ν : Type} (dict : Dict {text // test text = true} ν)
    (key : Json) (unknown : Failure) : Outcome ν :=
  match key with
  | .arr _ | .obj _ => .error ⟨.type, "unhashable type"⟩
  | .str text => require ((Codec.check test text).bind dict.get?) unknown
  | _ => .error unknown

structure State where
  limits : RegistryLimits
  artifacts : Dict Digest ArtifactRecord
  jobs : Dict Digest JobRecord
  attempts : Dict Digest AttemptRecord
  observations : Dict Digest ObservationRecord
  notices : Dict Name QuarantineNotice

namespace State

def empty (limits : RegistryLimits) : State :=
  ⟨limits, Dict.empty, Dict.empty, Dict.empty, Dict.empty, Dict.empty⟩

def unknownJob : Failure := ⟨.unknownIdentity, "unknown job identity"⟩

def getJob (state : State) (jobId : Digest) : Outcome JobRecord :=
  require (state.jobs.get? jobId) unknownJob

def mismatched : Failure := ⟨.staleClaim, "unknown or mismatched claim capability"⟩

def authenticate (state : State) (claim : Claim) : Outcome (AttemptRecord × JobRecord) := do
  let attempt ← require (state.attempts.get? claim.attemptId) mismatched
  refuse (attempt.claim ≠ claim) mismatched
  let job ← state.getJob claim.jobId
  .ok (attempt, job)

/-- Authentication of a claim that must still own its running job. -/
def authenticateRunning (state : State) (claim : Claim) :
    Outcome (AttemptRecord × JobRecord) := do
  let (attempt, job) ← state.authenticate claim
  refuse (attempt.state ≠ .running ∨ job.state ≠ .running ∨
      job.attempts.getLast? ≠ some claim.attemptId)
    ⟨.staleClaim, "attempt no longer owns the running job"⟩
  .ok (attempt, job)

/-! ### Artifact graph -/

def registered (state : State) (ref : ArtifactRef) : Bool :=
  (state.artifacts.get? ref.sha256).map ArtifactRecord.ref = some ref

def unregistered : Failure := ⟨.unknownIdentity, "unregistered exact artifact reference"⟩

/-- Index one record; a known digest must have the same record. -/
def indexRecord (artifacts : Dict Digest ArtifactRecord) (record : ArtifactRecord) :
    Outcome (Dict Digest ArtifactRecord) := do
  refuse ((artifacts.get? record.ref.sha256).any (fun old => decide (old ≠ record)) = true)
    ⟨.conflict, "immutable artifact identity/dependency declaration drift"⟩
  .ok (artifacts.set record.ref.sha256 record)

/-- The digests of a record's dependencies. -/
def parentKeys (record : ArtifactRecord) : List Digest :=
  record.dependencies.val.map ArtifactRef.sha256

def checkDependencies (artifacts : Dict Digest ArtifactRecord) (record : ArtifactRecord) :
    Outcome Unit := do
  refuse (¬ (parentKeys record).Nodup) ⟨.conflict, "duplicate dependency"⟩
  checkAll (fun parent =>
    refuse ((artifacts.get? parent.sha256).map ArtifactRecord.ref ≠ some parent)
      ⟨.conflict, "unregistered or inconsistent dependency reference"⟩) record.dependencies.val

/-- Add a node to the children of one of its parents. -/
def addChild (key : Digest) (children : Dict Digest (List Digest)) (parent : Digest) :
    Dict Digest (List Digest) :=
  let known := (children.get? parent).getD []
  children.set parent (if key ∈ known then known else known ++ [key])

def childrenOf (artifacts : Dict Digest ArtifactRecord) : Dict Digest (List Digest) :=
  artifacts.entries.foldl
    (fun children entry => (parentKeys entry.2).foldl (addChild entry.1) children) Dict.empty

def remainingOf (artifacts : Dict Digest ArtifactRecord) : Dict Digest Int :=
  artifacts.entries.foldl
    (fun remaining entry => remaining.set entry.1 (parentKeys entry.2).length) Dict.empty

def edgeCount (artifacts : Dict Digest ArtifactRecord) : Nat :=
  (artifacts.values.map fun record => (parentKeys record).length).sum

/-- The nodes that Kahn's loop releases. -/
def visitedCount (artifacts : Dict Digest ArtifactRecord) : Nat :=
  let remaining := remainingOf artifacts
  let ready := (remaining.entries.filter fun entry => entry.2 = 0).map Prod.fst
  Kahn.countReleased (childrenOf artifacts) artifacts.size ready.reverse remaining 0

def install (state : State) (records : List ArtifactRecord) : Outcome State := do
  let artifacts ← foldAll indexRecord state.artifacts records
  refuse (state.limits.maxArtifacts.val < artifacts.size)
    ⟨.limit, "artifact index capacity exceeded"⟩
  checkAll (checkDependencies artifacts) artifacts.values
  refuse (state.limits.maxGraphEdges.val < edgeCount artifacts)
    ⟨.limit, "dependency edge capacity exceeded"⟩
  refuse (visitedCount artifacts ≠ (remainingOf artifacts).size) ⟨.conflict, "dependency cycle"⟩
  .ok { state with artifacts }

/-! ### Quarantine -/

/-- What a job depends on: its inputs, its configuration and the evidence of its result. -/
def jobDependencies (job : JobRecord) : List ArtifactRef :=
  job.spec.inputs.val ++ [job.spec.configuration] ++
    (job.result.map OperationResult.evidenceArtifacts).getD []

def jobArtifacts (job : JobRecord) : List ArtifactRef :=
  (job.result.map OperationResult.artifacts).getD []

/-- The affected artifacts and the affected jobs. -/
abbrev Affected := Finset Digest × Finset Digest

def meets (refs : List ArtifactRef) (seen : Finset Digest) : Bool :=
  refs.any fun ref => ref.sha256 ∈ seen

def spreadArtifact (seen : Finset Digest) (entry : Digest × ArtifactRecord) : Finset Digest :=
  if meets entry.2.dependencies.val seen then insert entry.1 seen else seen

def spreadJob (affected : Affected) (entry : Digest × JobRecord) : Affected :=
  if meets (jobDependencies entry.2) affected.1 then
    (affected.1 ∪ ((jobArtifacts entry.2).map ArtifactRef.sha256).toFinset,
      insert entry.1 affected.2)
  else affected

/-- One pass over all artifacts and then over all jobs. -/
def spread (state : State) (affected : Affected) : Affected :=
  state.jobs.entries.foldl spreadJob
    (state.artifacts.entries.foldl spreadArtifact affected.1, affected.2)

def affectedSize (affected : Affected) : Nat := affected.1.card + affected.2.card

/-- The passes after which no new artifact or job can be left. -/
def affectedRounds (state : State) : Nat :=
  1 + state.artifacts.size + (state.jobs.values.map fun job => (jobArtifacts job).length).sum +
    state.jobs.size

def affected (state : State) (root : ArtifactRef) : Outcome Affected := do
  refuse (state.registered root = false) unregistered
  require (Fixpoint.untilStable state.spread affectedSize state.affectedRounds
    ({root.sha256}, ∅)) ⟨.unfinished, "quarantine closure"⟩

def usableUnder (state : State) (ignored : Finset Digest) (ref : ArtifactRef)
    (notice : QuarantineNotice) : Outcome Unit :=
  if notice.active = true ∧ notice.root.sha256 ∉ ignored then do
    let affected ← state.affected notice.root
    refuse (ref.sha256 ∈ affected.1)
      ⟨.quarantined, "artifact is affected by quarantine " ++ notice.noticeId.val⟩
  else .ok ()

def usable (state : State) (refs : List ArtifactRef) (ignored : Finset Digest) : Outcome Unit :=
  checkAll (fun ref => do
    refuse (state.registered ref = false) unregistered
    checkAll (state.usableUnder ignored ref) state.notices.values) refs

end State

/-! ### Quarantine scope of historical audits -/

namespace Historical

def policy : String := "registry-historical-audit-policy"

def subjects : String := "registry-historical-audit-subjects"

def protectedKind : String := "registry-historical-audit-protected"

def isReserved (ref : ArtifactRef) : Bool :=
  ref.kind.val = policy || ref.kind.val = subjects || ref.kind.val = protectedKind

/-- The dependencies that the subject closure pushes for one of its members. -/
def subjectNext (state : State) (ref : ArtifactRef) : Outcome (List ArtifactRef) := do
  refuse (isReserved ref = true) ⟨.conflict, "nested scope in historical subject closure"⟩
  let record ← require (state.artifacts.get? ref.sha256) ⟨.lookup, ref.sha256.val⟩
  .ok record.dependencies.val

def closureSteps (state : State) (pending : List ArtifactRef) : Nat :=
  1 + pending.length + State.edgeCount state.artifacts

def subjectClosure (state : State) (pending : List ArtifactRef) : Outcome (Finset Digest) :=
  match Worklist.traverse ArtifactRef.sha256 (subjectNext state) (closureSteps state pending)
      pending.reverse ∅ with
  | none => .error ⟨.unfinished, "subject closure"⟩
  | some result => result

def shapeDiffers : Failure := ⟨.conflict, "historical audit scope dependency shape differs"⟩

/-- The digests that no historical audit may ignore: the policy, its dependencies and the
explicitly protected references. -/
def guards (configuration : ArtifactRef) (scope protection : ArtifactRecord) : Finset Digest :=
  insert configuration.sha256
    ((State.parentKeys scope).toFinset ∪ (State.parentKeys protection).toFinset)

def ignoredRoots (state : State) (spec : JobSpec) : Outcome (Finset Digest) :=
  if spec.operation ≠ .audit ∨ spec.configuration.kind.val ≠ policy then .ok ∅
  else do
    let scope ← require (state.artifacts.get? spec.configuration.sha256)
      ⟨.conflict, "audit scope is not registered"⟩
    refuse (scope.ref ≠ spec.configuration) ⟨.conflict, "audit scope is not registered"⟩
    let dependencies := scope.dependencies.val
    refuse (dependencies.length ≠ 3) shapeDiffers
    match dependencies.filter (fun ref => ref.kind.val = subjects),
      dependencies.filter (fun ref => ref.kind.val = protectedKind),
      dependencies.filter (fun ref => !isReserved ref) with
    | [subject], [shield], [_] => do
        let protection ← require (state.artifacts.get? shield.sha256) ⟨.lookup, shield.sha256.val⟩
        let group ← require (state.artifacts.get? subject.sha256) ⟨.lookup, subject.sha256.val⟩
        let seen ← subjectClosure state group.dependencies.val
        .ok (seen \ guards spec.configuration scope protection)
    | _, _, _ => .error shapeDiffers

end Historical

namespace State

def jobUsable (state : State) (spec : JobSpec) (refs : List ArtifactRef) : Outcome Unit := do
  let ignored ← Historical.ignoredRoots state spec
  state.usable refs ignored

/-! ### Cost accounting -/

/-- The upstream stream that a snapshot belongs to. -/
def stream (item : ObservationRecord) : Name × Name :=
  (item.observation.source, item.observation.upstreamAttemptId)

def keepLatest (result : Dict (Name × Name) ObservationRecord) (item : ObservationRecord) :
    Dict (Name × Name) ObservationRecord :=
  match result.get? (stream item) with
  | none => result.set (stream item) item
  | some old =>
      if old.observation.revision.val < item.observation.revision.val then
        result.set (stream item) item
      else result

def latest (state : State) : Dict (Name × Name) ObservationRecord :=
  state.observations.values.foldl keepLatest Dict.empty

/-- Sorting by identity. -/
def sortIdentities (identities : List Digest) : List Digest :=
  identities.insertionSort fun first second => first.val ≤ second.val

def sortObservations (items : List ObservationRecord) : List ObservationRecord :=
  items.insertionSort fun first second => first.observationId.val ≤ second.observationId.val

def accounting (state : State) (jobId : Digest) : Outcome AccountingReport := do
  let job ← state.getJob jobId
  let observations := sortObservations
    (state.latest.values.filter fun item => item.attemptId ∈ job.attempts)
  let covered := observations.map ObservationRecord.attemptId
  .ok ⟨observations, job.attempts.filter fun attempt => attempt ∉ covered⟩

/-- A known dimension that became unknown or smaller. -/
def reduces (previous current : Option ℚ) : Bool :=
  match previous, current with
  | none, _ => false
  | some _, none => true
  | some before, some after => decide (after < before)

def checkCost (costs : List CostRecord) (cost : CostRecord) : Outcome Unit := do
  let newer ← require (costs.find? fun other => other.category = cost.category)
    ⟨.conflict, "new snapshot cannot drop incurred cost channels"⟩
  checkAll (fun pair => refuse (reduces pair.1 pair.2 = true)
    ⟨.conflict, "new snapshot cannot erase or reduce known incurred cost"⟩)
    (cost.dimensions.zip newer.dimensions)

/-- What a snapshot must satisfy against the latest one of its stream. -/
def checkRevision (attemptId : Digest) (observation : CostObservation) :
    Option ObservationRecord → Outcome Unit
  | none =>
      refuse (observation.revision.val ≠ 1)
        ⟨.conflict, "first accounting snapshot must be revision 1"⟩
  | some latest => do
      refuse (latest.attemptId ≠ attemptId)
        ⟨.conflict, "upstream attempt already attributed to another registry attempt"⟩
      refuse (observation.revision.val ≠ latest.observation.revision.val + 1)
        ⟨.conflict, "accounting revisions must be contiguous"⟩
      refuse (¬ latest.observation.receipts.val ⊆ observation.receipts.val)
        ⟨.conflict, "new snapshot cannot drop existing receipts"⟩
      checkAll (checkCost observation.costs) latest.observation.costs

/-- The sorted identities of the latest snapshots of an attempt. -/
def wanted (state : State) (attemptId : Digest) : List Digest :=
  sortIdentities ((state.latest.values.filter fun item => item.attemptId = attemptId).map
    ObservationRecord.observationId)

/-- The items that iterating over a JSON value yields. -/
def iterate : Json → Outcome (List Json)
  | .arr items => .ok items
  | .obj members => .ok (members.map fun member => .str member.1)
  | .str text => .ok (text.toList.map fun c => .str (String.singleton c))
  | _ => .error ⟨.type, "object is not iterable"⟩

def matchesText (text : String) : Json → Bool
  | .str other => other = text
  | _ => false

/-- The items are exactly these identities in this order. -/
def lists : List Json → List Digest → Bool
  | [], [] => true
  | item :: items, digest :: digests => matchesText digest.val item && lists items digests
  | _, _ => false

def snapshotCosts (state : State) : List Digest → Outcome (List CostRecord)
  | [] => .ok []
  | key :: rest => do
      let record ← require (state.observations.get? key) ⟨.lookup, key.val⟩
      let costs ← state.snapshotCosts rest
      .ok (record.observation.costs ++ costs)

/-! ### Events -/

def shape : Action → List String
  | .register => ["artifacts"]
  | .enqueue => ["artifacts", "spec"]
  | .claim => ["artifacts", "claim"]
  | .abandon => ["artifacts", "claim", "reason", "evidence"]
  | .retry => ["artifacts", "job_id", "reason", "evidence"]
  | .reconcile => ["artifacts", "claim", "observation"]
  | .complete => ["artifacts", "claim", "result", "observations"]
  | .quarantine => ["artifacts", "notice"]
  | .lift => ["artifacts", "notice_id", "reason", "evidence"]
  | .expandLimits => ["artifacts", "previous_limits", "limits", "reason"]

/-- The payload has exactly these keys. -/
def hasShape (data : Json.Members) (keys : List String) : Bool :=
  data.all (fun member => member.1 ∈ keys) && keys.all fun key => key ∈ data.map Prod.fst

def applyExpandLimits (state : State) (data : Json.Members) : Outcome State := do
  let unexpected := ⟨.integrity, "unexpected capacity expansion payload"⟩
  refuse (hasShape data (shape .expandLimits) = false) unexpected
  match member data "artifacts" with
  | .arr [] => do
      let expansion ← validated LimitExpansion.codec
        (.obj (data.filter fun member => member.1 ≠ "artifacts"))
      refuse (expansion.previousLimits ≠ state.limits)
        ⟨.integrity, "capacity expansion is not contiguous with prior limits"⟩
      .ok { state with limits := expansion.limits }
  | _ => .error unexpected

def applyEnqueue (sha256 : Bytes → Digest) (state : State) (data : Json.Members) :
    Outcome State := do
  let spec ← validated JobSpec.codec (member data "spec")
  let key := identity sha256 (JobSpec.codec.document spec)
  refuse ((state.jobs.get? key).isSome = true) ⟨.conflict, "duplicate enqueue event"⟩
  refuse (state.limits.maxJobs.val ≤ state.jobs.size) ⟨.limit, "job index capacity exceeded"⟩
  refuse (state.limits.maxActiveJobs.val ≤ state.jobs.values.countP fun job => job.state.active)
    ⟨.backpressure, "active job queue is full"⟩
  refuse (state.limits.maxAttemptsPerJob.val < spec.attemptLimit.val)
    ⟨.attemptLimit, "job attempt limit exceeds registry policy"⟩
  state.jobUsable spec (spec.inputs.val ++ [spec.configuration])
  .ok { state with jobs := state.jobs.set key ⟨key, spec, .queued, [], none, []⟩ }

/-- The document whose digest names an attempt. -/
def attemptDocument (jobId : Digest) (claimKey owner : Name) : Json :=
  Json.dict [("job_id", .str jobId.val), ("claim_key", .str claimKey.val),
    ("owner", .str owner.val)]

def attemptLimitExhausted : Failure := ⟨.attemptLimit, "job attempt limit exhausted"⟩

def applyClaim (sha256 : Bytes → Digest) (state : State) (data : Json.Members) :
    Outcome State := do
  let claim ← validated Claim.codec (member data "claim")
  let job ← state.getJob claim.jobId
  refuse (job.state ≠ .queued)
    ⟨.claimConflict, "job is not queued; paused jobs require explicit retry"⟩
  refuse (state.attempts.values.any (fun attempt => attempt.claim.claimKey = claim.claimKey) = true)
    ⟨.claimConflict, "claim key already belongs to an attempt"⟩
  refuse (job.spec.attemptLimit.val ≤ job.attempts.length) attemptLimitExhausted
  refuse (claim.attemptId ≠ identity sha256 (attemptDocument job.jobId claim.claimKey claim.owner))
    ⟨.conflict, "attempt identity mismatch"⟩
  state.jobUsable job.spec (job.spec.inputs.val ++ [job.spec.configuration])
  let running ← require (JobRecord.fields.updated job
    [("state", JobState.codec.document .running),
      ("attempts", (Codec.tuple Digest.codec).document (job.attempts ++ [claim.attemptId]))]) invalid
  .ok { state with
    attempts := state.attempts.set claim.attemptId ⟨claim, .running, none, Refs.empty⟩
    jobs := state.jobs.set job.jobId running }

def applyAbandon (state : State) (data : Json.Members) : Outcome State := do
  let claim ← validated Claim.codec (member data "claim")
  let _ ← state.getJob claim.jobId
  let (attempt, job) ← state.authenticateRunning claim
  let candidate ← require (AttemptRecord.fields.updated attempt
    [("state", AttemptState.codec.document .abandoned), ("reason", member data "reason"),
      ("evidence", member data "evidence")]) invalid
  refuse (candidate.evidence.val = []) ⟨.conflict, "abandonment requires supervisor evidence"⟩
  let settled : JobState :=
    if job.spec.attemptLimit.val ≤ job.attempts.length then .exhausted else .paused
  let stopped ← require
    (JobRecord.fields.updated job [("state", JobState.codec.document settled)]) invalid
  .ok { state with
    attempts := state.attempts.set claim.attemptId candidate
    jobs := state.jobs.set job.jobId stopped }

def applyRetry (state : State) (data : Json.Members) : Outcome State := do
  let job ← lookupBy state.jobs (member data "job_id") unknownJob
  refuse (job.spec.attemptLimit.val ≤ job.attempts.length) attemptLimitExhausted
  refuse (job.state ≠ .paused)
    ⟨.claimConflict, "only paused interrupted jobs can be explicitly retried"⟩
  let last ← require job.attempts.getLast? ⟨.lookup, "tuple index out of range"⟩
  let attempt ← require (state.attempts.get? last) ⟨.lookup, last.val⟩
  let record ← require (AttemptRecord.fields.updated attempt
    [("reason", member data "reason"), ("evidence", member data "evidence")]) invalid
  refuse (record.evidence.val = [])
    ⟨.conflict, "retry requires diagnosed cause/change evidence"⟩
  state.jobUsable job.spec (job.spec.inputs.val ++ [job.spec.configuration])
  let queued ← require
    (JobRecord.fields.updated job [("state", JobState.codec.document .queued)]) invalid
  .ok { state with jobs := state.jobs.set job.jobId queued }

/-- The document whose digest names a snapshot. -/
def observationDocument (attemptId : Digest) (observation : CostObservation) : Json :=
  Json.dict [("attempt_id", .str attemptId.val),
    ("observation", CostObservation.codec.document observation)]

def applyReconcile (sha256 : Bytes → Digest) (state : State) (data : Json.Members) :
    Outcome State := do
  let claim ← validated Claim.codec (member data "claim")
  let _ ← state.getJob claim.jobId
  let _ ← state.authenticate claim
  let observation ← validated CostObservation.codec (member data "observation")
  checkRevision claim.attemptId observation
    (state.latest.get? (observation.source, observation.upstreamAttemptId))
  let key := identity sha256 (observationDocument claim.attemptId observation)
  .ok { state with
    observations := state.observations.set key ⟨key, claim.attemptId, observation⟩ }

def unboundSnapshots : Failure :=
  ⟨.conflict, "completion must bind all current accounting snapshots of its attempt"⟩

def applyComplete (state : State) (data : Json.Members) : Outcome State := do
  let claim ← validated Claim.codec (member data "claim")
  let _ ← state.getJob claim.jobId
  let (attempt, job) ← state.authenticateRunning claim
  let result ← validated OperationResult.codec (member data "result")
  refuse (result.operation ≠ job.spec.operation)
    ⟨.conflict, "operation result does not match job operation"⟩
  let wanted := state.wanted claim.attemptId
  refuse (wanted = []) unboundSnapshots
  let declared ← iterate (member data "observations")
  refuse (lists declared wanted = false) unboundSnapshots
  let costs ← state.snapshotCosts wanted
  refuse (result.costs.isEqv costs CostRecord.equal = false)
    ⟨.conflict, "result costs do not match the declared snapshot records"⟩
  state.jobUsable job.spec (job.spec.inputs.val ++ [job.spec.configuration] ++ result.artifacts ++
    result.evidenceArtifacts)
  let finished ← require (AttemptRecord.fields.updated attempt
    [("state", AttemptState.codec.document .completed)]) invalid
  let completed ← require (JobRecord.fields.updated job
    [("state", JobState.codec.document .completed),
      ("result", OperationResult.codec.document result),
      ("result_observations", (Codec.tuple Digest.codec).document wanted)]) invalid
  .ok { state with
    attempts := state.attempts.set claim.attemptId finished
    jobs := state.jobs.set job.jobId completed }

def applyQuarantine (state : State) (data : Json.Members) : Outcome State := do
  let notice ← validated QuarantineNotice.codec (member data "notice")
  refuse ((state.notices.get? notice.noticeId).isSome = true ∨ notice.active = false ∨
      notice.resolutionReason ≠ none ∨ notice.resolutionEvidence.val ≠ [])
    ⟨.conflict, "new quarantine must be an unresolved unique notice"⟩
  let _ ← state.affected notice.root
  .ok { state with notices := state.notices.set notice.noticeId notice }

def applyLift (state : State) (data : Json.Members) : Outcome State := do
  let notice ← lookupBy state.notices (member data "notice_id")
    ⟨.unknownIdentity, "unknown quarantine notice"⟩
  let candidate ← require (QuarantineNotice.fields.updated notice
    [("active", .bool false), ("resolution_reason", member data "reason"),
      ("resolution_evidence", member data "evidence")]) invalid
  refuse (notice.active = false ∨ candidate.resolutionEvidence.val = [])
    ⟨.conflict, "lifting requires an active notice and resolution evidence"⟩
  .ok { state with notices := state.notices.set notice.noticeId candidate }

def unexpectedShape : Failure := ⟨.integrity, "unexpected event payload shape"⟩

/-- What an event does after its artifact records are installed. -/
def applyInstalled (sha256 : Bytes → Digest) (state : State) (action : Action)
    (data : Json.Members) : Outcome State :=
  match action with
  | .register => .ok state
  | .enqueue => state.applyEnqueue sha256 data
  | .claim => state.applyClaim sha256 data
  | .abandon => state.applyAbandon data
  | .retry => state.applyRetry data
  | .reconcile => state.applyReconcile sha256 data
  | .complete => state.applyComplete data
  | .quarantine => state.applyQuarantine data
  | .lift => state.applyLift data
  | .expandLimits => .error unexpectedShape

/-- The artifact records of a payload. -/
def eventRecords (data : Json.Members) : Outcome (List ArtifactRecord) :=
  match member data "artifacts" with
  | .arr items => require (Codec.validateAll ArtifactRecord.codec.validate items) invalid
  | _ => .error unexpectedShape

def applyEvent (sha256 : Bytes → Digest) (state : State) (action : Action)
    (data : Json.Members) : Outcome State := do
  refuse (hasShape data (shape action) = false) unexpectedShape
  let records ← eventRecords data
  refuse (state.limits.maxClosureArtifacts.val < records.length)
    ⟨.limit, "event artifact closure exceeded"⟩
  let installed ← state.install records
  installed.applyInstalled sha256 action data

def apply (sha256 : Bytes → Digest) (state : State) (action : Action) (data : Json.Members) :
    Outcome State :=
  if action = .expandLimits then state.applyExpandLimits data
  else state.applyEvent sha256 action data

/-! ### Materialized rows -/

/-- The rows of one dictionary of the state. -/
def rowsIn {κ ν : Type} (space : String) (name : κ → String) (codec : Codec ν) (dict : Dict κ ν) :
    List ((String × String) × Bytes) :=
  dict.entries.map fun entry => ((space, name entry.1), codec.dump entry.2)

def rows (state : State) : Dict (String × String) Bytes :=
  (rowsIn "artifacts" Subtype.val ArtifactRecord.codec state.artifacts ++
    rowsIn "jobs" Subtype.val JobRecord.codec state.jobs ++
    rowsIn "attempts" Subtype.val AttemptRecord.codec state.attempts ++
    rowsIn "observations" Subtype.val ObservationRecord.codec state.observations ++
    rowsIn "notices" Subtype.val QuarantineNotice.codec state.notices).foldl
      (fun rows entry => rows.set entry.1 entry.2) Dict.empty

end State

end FeatureRl
