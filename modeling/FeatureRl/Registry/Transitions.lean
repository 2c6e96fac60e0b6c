import FeatureRl.Registry.State

/-!
What each accepted event does to the state. Every operation has one rule that lists its
guards and the state it leaves; the invariants are proved from these rules alone.
-/

namespace FeatureRl

open Checked

theorem validated_eq_ok {α : Type} {codec : Codec α} {value : Json} {result : α} :
    validated codec value = .ok result ↔ codec.validate value = some result :=
  require_eq_ok

theorem lookupBy_eq_ok {test : String → Bool} {ν : Type}
    {dict : Dict {text // test text = true} ν} {key : Json} {unknown : Failure} {result : ν} :
    lookupBy dict key unknown = .ok result ↔
      ∃ name, key = .str name.val ∧ dict.get? name = some result := by
  constructor
  · intro found
    cases key with
    | str text =>
        obtain ⟨name, checked, at_name⟩ := Option.bind_eq_some_iff.mp (require_eq_ok.mp found)
        simp only [Codec.check] at checked
        split at checked
        next =>
          obtain rfl := Option.some.inj checked
          exact ⟨_, rfl, at_name⟩
        next => cases checked
    | _ => cases found
  · rintro ⟨name, rfl, found⟩
    rw [lookupBy, require_eq_ok, Codec.check_val, Option.bind_some, found]

namespace State

variable {sha256 : Bytes → Digest} {state next : State} {data : Json.Members}

/-! ### Claims -/

/-- The claim is the one its attempt was created with. -/
structure Authentic (state : State) (claim : Claim) (attempt : AttemptRecord) (job : JobRecord) :
    Prop where
  attempt_at : state.attempts.get? claim.attemptId = some attempt
  claim_eq : attempt.claim = claim
  job_at : state.jobs.get? claim.jobId = some job

/-- The claim still owns its running job. -/
structure Owns (state : State) (claim : Claim) (attempt : AttemptRecord) (job : JobRecord) : Prop
    extends Authentic state claim attempt job where
  attempt_running : attempt.state = .running
  job_running : job.state = .running
  last : job.attempts.getLast? = some claim.attemptId

theorem authenticate_eq_ok {claim : Claim} {pair : AttemptRecord × JobRecord} :
    state.authenticate claim = .ok pair ↔ Authentic state claim pair.1 pair.2 := by
  simp only [authenticate, getJob, bind_eq_ok, require_eq_ok, refuse_eq_ok, not_not,
    Except.ok.injEq]
  constructor
  · rintro ⟨attempt, found, _, same, job, at_job, rfl⟩
    exact ⟨found, same, at_job⟩
  · rintro ⟨found, same, at_job⟩
    exact ⟨pair.1, found, (), same, pair.2, at_job, rfl⟩

theorem authenticateRunning_eq_ok {claim : Claim} {pair : AttemptRecord × JobRecord} :
    state.authenticateRunning claim = .ok pair ↔ Owns state claim pair.1 pair.2 := by
  simp only [authenticateRunning, bind_eq_ok, authenticate_eq_ok, refuse_eq_ok, not_or, not_not,
    Except.ok.injEq]
  constructor
  · rintro ⟨found, authentic, _, ⟨attempt_running, job_running, last⟩, rfl⟩
    exact ⟨authentic, attempt_running, job_running, last⟩
  · intro owns
    exact ⟨pair, owns.toAuthentic, (), ⟨owns.attempt_running, owns.job_running, owns.last⟩, rfl⟩

/-! ### Installing artifact records -/

/-- A record without repeated dependencies whose dependencies are registered exactly. -/
structure Resolved (artifacts : Dict Digest ArtifactRecord) (record : ArtifactRecord) : Prop where
  distinct : (parentKeys record).Nodup
  known : ∀ parent ∈ record.dependencies.val,
    (artifacts.get? parent.sha256).map ArtifactRecord.ref = some parent

theorem checkDependencies_eq_ok {artifacts : Dict Digest ArtifactRecord} {record : ArtifactRecord} :
    checkDependencies artifacts record = .ok () ↔ Resolved artifacts record := by
  simp only [checkDependencies, bind_eq_ok, refuse_eq_ok, checkAll_eq_ok, not_not]
  constructor
  · rintro ⟨-, distinct, known⟩
    exact ⟨distinct, known⟩
  · intro resolved
    exact ⟨(), resolved.distinct, resolved.known⟩

/-- The checks on the merged artifact index. -/
structure Installable (limits : RegistryLimits) (artifacts : Dict Digest ArtifactRecord) :
    Prop where
  room : artifacts.size ≤ limits.maxArtifacts.val
  resolved : ∀ record ∈ artifacts.values, Resolved artifacts record
  edges : edgeCount artifacts ≤ limits.maxGraphEdges.val
  released : visitedCount artifacts = (remainingOf artifacts).size

theorem install_eq_ok {records : List ArtifactRecord} :
    state.install records = .ok next ↔
      ∃ artifacts, foldAll indexRecord state.artifacts records = .ok artifacts ∧
        Installable state.limits artifacts ∧ next = { state with artifacts } := by
  simp only [install, bind_eq_ok, refuse_eq_ok, checkAll_eq_ok, checkDependencies_eq_ok, not_lt,
    not_not, Except.ok.injEq]
  constructor
  · rintro ⟨artifacts, indexed, _, room, _, resolved, _, edges, _, released, rfl⟩
    exact ⟨artifacts, indexed, ⟨room, resolved, edges, released⟩, rfl⟩
  · rintro ⟨artifacts, indexed, ⟨room, resolved, edges, released⟩, rfl⟩
    exact ⟨artifacts, indexed, (), room, (), resolved, (), edges, (), released, rfl⟩

/-! ### Jobs -/

/-- The inputs and the configuration of a job. -/
def jobInputs (spec : JobSpec) : List ArtifactRef := spec.inputs.val ++ [spec.configuration]

def jobKey (sha256 : Bytes → Digest) (spec : JobSpec) : Digest :=
  identity sha256 (JobSpec.codec.document spec)

structure Enqueues (sha256 : Bytes → Digest) (state : State) (data : Json.Members)
    (spec : JobSpec) : Prop where
  decoded : JobSpec.codec.validate (member data "spec") = some spec
  fresh : state.jobs.get? (jobKey sha256 spec) = none
  room : state.jobs.size < state.limits.maxJobs.val
  slot : state.jobs.values.countP (fun job => job.state.active) < state.limits.maxActiveJobs.val
  bounded : spec.attemptLimit.val ≤ state.limits.maxAttemptsPerJob.val
  usable : state.jobUsable spec (jobInputs spec) = .ok ()

/-- A job without attempts or result. -/
def newJob (key : Digest) (spec : JobSpec) : JobRecord := ⟨key, spec, .queued, [], none, []⟩

theorem applyEnqueue_eq_ok : state.applyEnqueue sha256 data = .ok next ↔
    ∃ spec, Enqueues sha256 state data spec ∧
      next = { state with
        jobs := state.jobs.set (jobKey sha256 spec) (newJob (jobKey sha256 spec) spec) } := by
  simp only [applyEnqueue, bind_eq_ok, validated_eq_ok, refuse_eq_ok, not_le, not_lt,
    Except.ok.injEq, Option.isSome_iff_ne_none, not_not]
  constructor
  · rintro ⟨spec, decoded, _, fresh, _, room, _, slot, _, bounded, _, usable, rfl⟩
    exact ⟨spec, ⟨decoded, fresh, room, slot, bounded, usable⟩, rfl⟩
  · rintro ⟨spec, ⟨decoded, fresh, room, slot, bounded, usable⟩, rfl⟩
    exact ⟨spec, decoded, (), fresh, (), room, (), slot, (), bounded, (), usable, rfl⟩

structure Claims (sha256 : Bytes → Digest) (state : State) (data : Json.Members) (claim : Claim)
    (job : JobRecord) : Prop where
  decoded : Claim.codec.validate (member data "claim") = some claim
  job_at : state.jobs.get? claim.jobId = some job
  queued : job.state = .queued
  key_fresh : ∀ attempt ∈ state.attempts.values, attempt.claim.claimKey ≠ claim.claimKey
  below : job.attempts.length < job.spec.attemptLimit.val
  identified : claim.attemptId =
    identity sha256 (attemptDocument job.jobId claim.claimKey claim.owner)
  usable : state.jobUsable job.spec (jobInputs job.spec) = .ok ()

theorem applyClaim_eq_ok : state.applyClaim sha256 data = .ok next ↔
    ∃ claim job, Claims sha256 state data claim job ∧
      next = { state with
        attempts := state.attempts.set claim.attemptId ⟨claim, .running, none, Refs.empty⟩
        jobs := state.jobs.set job.jobId
          { job with state := .running, attempts := job.attempts ++ [claim.attemptId] } } := by
  simp only [applyClaim, getJob, bind_eq_ok, validated_eq_ok, require_eq_ok, refuse_eq_ok, not_le,
    not_not, Except.ok.injEq, JobRecord.updated_attempts, Option.some.injEq, List.any_eq_true,
    decide_eq_true_eq, not_exists, not_and]
  constructor
  · rintro ⟨claim, decoded, job, at_job, _, queued, _, fresh, _, below, _, identified, _, usable,
      _, rfl, rfl⟩
    exact ⟨claim, job, ⟨decoded, at_job, queued, fresh, below, identified, usable⟩, rfl⟩
  · rintro ⟨claim, job, ⟨decoded, at_job, queued, fresh, below, identified, usable⟩, rfl⟩
    exact ⟨claim, decoded, job, at_job, (), queued, (), fresh, (), below, (), identified, (),
      usable, _, rfl, rfl⟩

structure Abandons (state : State) (data : Json.Members) (claim : Claim) (attempt : AttemptRecord)
    (job : JobRecord) (reason : Option Reason) (evidence : Refs) : Prop where
  decoded : Claim.codec.validate (member data "claim") = some claim
  owns : Owns state claim attempt job
  reason_eq : Reason.optional.validate (member data "reason") = some reason
  evidence_eq : Refs.codec.validate (member data "evidence") = some evidence
  supported : evidence.val ≠ []

/-- The state of an interrupted job: exhausted at its attempt limit. -/
def interrupted (job : JobRecord) : JobState :=
  if job.spec.attemptLimit.val ≤ job.attempts.length then .exhausted else .paused

theorem applyAbandon_eq_ok : state.applyAbandon data = .ok next ↔
    ∃ claim attempt job reason evidence, Abandons state data claim attempt job reason evidence ∧
      next = { state with
        attempts := state.attempts.set claim.attemptId
          { attempt with state := .abandoned, reason, evidence }
        jobs := state.jobs.set job.jobId { job with state := interrupted job } } := by
  simp only [applyAbandon, getJob, bind_eq_ok, validated_eq_ok, require_eq_ok, refuse_eq_ok,
    authenticateRunning_eq_ok, Except.ok.injEq, AttemptRecord.updated_state_reason,
    JobRecord.updated_state, Option.some.injEq, Option.bind_eq_bind, Option.bind_eq_some_iff]
  constructor
  · rintro ⟨claim, decoded, _, _, ⟨attempt, job⟩, owns, _, ⟨reason, read, evidence, cited, rfl⟩, _,
      supported, _, rfl, rfl⟩
    exact ⟨claim, attempt, job, reason, evidence, ⟨decoded, owns, read, cited, supported⟩, rfl⟩
  · rintro ⟨claim, attempt, job, reason, evidence, ⟨decoded, owns, read, cited, supported⟩, rfl⟩
    exact ⟨claim, decoded, job, owns.job_at, (attempt, job), owns, _,
      ⟨reason, read, evidence, cited, rfl⟩, (), supported, _, rfl, rfl⟩

structure Retries (state : State) (data : Json.Members) (key : Digest) (job : JobRecord) : Prop where
  named : member data "job_id" = .str key.val
  job_at : state.jobs.get? key = some job
  below : job.attempts.length < job.spec.attemptLimit.val
  paused : job.state = .paused
  attempt_at : ∃ last attempt, job.attempts.getLast? = some last ∧
    state.attempts.get? last = some attempt
  diagnosed : ∃ reason evidence, Reason.optional.validate (member data "reason") = some reason ∧
    Refs.codec.validate (member data "evidence") = some evidence ∧ evidence.val ≠ []
  usable : state.jobUsable job.spec (jobInputs job.spec) = .ok ()

theorem applyRetry_eq_ok : state.applyRetry data = .ok next ↔
    ∃ key job, Retries state data key job ∧
      next = { state with jobs := state.jobs.set job.jobId { job with state := .queued } } := by
  simp only [applyRetry, bind_eq_ok, lookupBy_eq_ok, require_eq_ok, refuse_eq_ok, not_le, not_not,
    Except.ok.injEq, AttemptRecord.updated_reason, JobRecord.updated_state, Option.some.injEq,
    Option.bind_eq_bind, Option.bind_eq_some_iff]
  constructor
  · rintro ⟨job, ⟨key, named, at_job⟩, _, below, _, paused, last, at_last, attempt, at_attempt, _,
      ⟨reason, read, evidence, cited, rfl⟩, _, supported, _, usable, _, rfl, rfl⟩
    exact ⟨key, job, ⟨named, at_job, below, paused, ⟨last, attempt, at_last, at_attempt⟩,
      ⟨reason, evidence, read, cited, supported⟩, usable⟩, rfl⟩
  · rintro ⟨key, job, ⟨named, at_job, below, paused, ⟨last, attempt, at_last, at_attempt⟩,
      ⟨reason, evidence, read, cited, supported⟩, usable⟩, rfl⟩
    exact ⟨job, ⟨key, named, at_job⟩, (), below, (), paused, last, at_last, attempt, at_attempt, _,
      ⟨reason, read, evidence, cited, rfl⟩, (), supported, (), usable, _, rfl, rfl⟩

/-! ### Accounting -/

/-- The category is still listed and none of its known dimensions was lost or reduced. -/
def CostKept (costs : List CostRecord) (cost : CostRecord) : Prop :=
  ∃ newer, costs.find? (fun other => other.category = cost.category) = some newer ∧
    ∀ pair ∈ cost.dimensions.zip newer.dimensions, reduces pair.1 pair.2 = false

theorem checkCost_eq_ok {costs : List CostRecord} {cost : CostRecord} :
    checkCost costs cost = .ok () ↔ CostKept costs cost := by
  simp only [checkCost, bind_eq_ok, require_eq_ok, checkAll_eq_ok, refuse_eq_ok,
    Bool.not_eq_true, CostKept]

structure Continues (attemptId : Digest) (observation : CostObservation)
    (latest : ObservationRecord) : Prop where
  bound : latest.attemptId = attemptId
  revision : observation.revision.val = latest.observation.revision.val + 1
  receipts : latest.observation.receipts.val ⊆ observation.receipts.val
  costs : ∀ cost ∈ latest.observation.costs, CostKept observation.costs cost

theorem checkRevision_none_eq_ok {attemptId : Digest} {observation : CostObservation} :
    checkRevision attemptId observation none = .ok () ↔ observation.revision.val = 1 := by
  simp only [checkRevision, refuse_eq_ok, not_not]

theorem checkRevision_some_eq_ok {attemptId : Digest} {observation : CostObservation}
    {latest : ObservationRecord} :
    checkRevision attemptId observation (some latest) = .ok () ↔
      Continues attemptId observation latest := by
  simp only [checkRevision, bind_eq_ok, refuse_eq_ok, not_not, checkAll_eq_ok, checkCost_eq_ok]
  constructor
  · rintro ⟨-, bound, -, revision, -, receipts, costs⟩
    exact ⟨bound, revision, receipts, costs⟩
  · intro continues
    exact ⟨(), continues.bound, (), continues.revision, (), continues.receipts, continues.costs⟩

structure Reconciles (state : State) (data : Json.Members) (claim : Claim)
    (attempt : AttemptRecord) (job : JobRecord) (observation : CostObservation) : Prop where
  decoded : Claim.codec.validate (member data "claim") = some claim
  authentic : Authentic state claim attempt job
  observed : CostObservation.codec.validate (member data "observation") = some observation
  revised : checkRevision claim.attemptId observation
    (state.latest.get? (observation.source, observation.upstreamAttemptId)) = .ok ()

def observationKey (sha256 : Bytes → Digest) (attemptId : Digest)
    (observation : CostObservation) : Digest :=
  identity sha256 (observationDocument attemptId observation)

/-- The record of a snapshot under its own identity. -/
def newObservation (sha256 : Bytes → Digest) (attemptId : Digest) (observation : CostObservation) :
    ObservationRecord :=
  ⟨observationKey sha256 attemptId observation, attemptId, observation⟩

theorem applyReconcile_eq_ok : state.applyReconcile sha256 data = .ok next ↔
    ∃ claim attempt job observation, Reconciles state data claim attempt job observation ∧
      next = { state with
        observations := state.observations.set (observationKey sha256 claim.attemptId observation)
          (newObservation sha256 claim.attemptId observation) } := by
  simp only [applyReconcile, getJob, bind_eq_ok, validated_eq_ok, require_eq_ok,
    authenticate_eq_ok, Except.ok.injEq]
  constructor
  · rintro ⟨claim, decoded, _, _, ⟨attempt, job⟩, authentic, observation, observed, _, revised,
      rfl⟩
    exact ⟨claim, attempt, job, observation, ⟨decoded, authentic, observed, revised⟩, rfl⟩
  · rintro ⟨claim, attempt, job, observation, ⟨decoded, authentic, observed, revised⟩, rfl⟩
    exact ⟨claim, decoded, job, authentic.job_at, (attempt, job), authentic, observation, observed,
      (), revised, rfl⟩

structure Completes (state : State) (data : Json.Members) (claim : Claim) (attempt : AttemptRecord)
    (job : JobRecord) (result : OperationResult) : Prop where
  decoded : Claim.codec.validate (member data "claim") = some claim
  owns : Owns state claim attempt job
  read : OperationResult.codec.validate (member data "result") = some result
  operation : result.operation = job.spec.operation
  observed : state.wanted claim.attemptId ≠ []
  bound : ∃ declared, iterate (member data "observations") = .ok declared ∧
    lists declared (state.wanted claim.attemptId) = true
  costs : ∃ costs, state.snapshotCosts (state.wanted claim.attemptId) = .ok costs ∧
    result.costs.isEqv costs CostRecord.equal = true
  usable : state.jobUsable job.spec
    (jobInputs job.spec ++ result.artifacts ++ result.evidenceArtifacts) = .ok ()

/-- A job with the result it was completed with. -/
def completedJob (job : JobRecord) (result : OperationResult) (resultObservations : List Digest) :
    JobRecord :=
  { job with state := .completed, result := some result, resultObservations }

theorem applyComplete_eq_ok : state.applyComplete data = .ok next ↔
    ∃ claim attempt job result, Completes state data claim attempt job result ∧
      next = { state with
        attempts := state.attempts.set claim.attemptId { attempt with state := .completed }
        jobs := state.jobs.set job.jobId (completedJob job result (state.wanted claim.attemptId)) } := by
  simp only [applyComplete, getJob, bind_eq_ok, validated_eq_ok, require_eq_ok, refuse_eq_ok,
    authenticateRunning_eq_ok, Except.ok.injEq, AttemptRecord.updated_state,
    JobRecord.updated_result, Option.some.injEq, not_not, Bool.not_eq_false]
  constructor
  · rintro ⟨claim, decoded, _, _, ⟨attempt, job⟩, owns, result, read, _, operation, _, observed,
      declared, iterated, _, listed, costs, gathered, _, equal, _, usable, _, rfl, _, rfl, rfl⟩
    exact ⟨claim, attempt, job, result, ⟨decoded, owns, read, operation, observed,
      ⟨declared, iterated, listed⟩, ⟨costs, gathered, equal⟩, usable⟩, rfl⟩
  · rintro ⟨claim, attempt, job, result, ⟨decoded, owns, read, operation, observed,
      ⟨declared, iterated, listed⟩, ⟨costs, gathered, equal⟩, usable⟩, rfl⟩
    exact ⟨claim, decoded, job, owns.job_at, (attempt, job), owns, result, read, (), operation, (),
      observed, declared, iterated, (), listed, costs, gathered, (), equal, (), usable, _, rfl, _,
      rfl, rfl⟩

/-! ### Notices -/

structure Quarantines (state : State) (data : Json.Members) (notice : QuarantineNotice) :
    Prop where
  decoded : QuarantineNotice.codec.validate (member data "notice") = some notice
  fresh : state.notices.get? notice.noticeId = none
  active : notice.active = true
  unresolved : notice.resolutionReason = none ∧ notice.resolutionEvidence.val = []
  rooted : ∃ affected, state.affected notice.root = .ok affected

theorem applyQuarantine_eq_ok : state.applyQuarantine data = .ok next ↔
    ∃ notice, Quarantines state data notice ∧
      next = { state with notices := state.notices.set notice.noticeId notice } := by
  simp only [applyQuarantine, bind_eq_ok, validated_eq_ok, refuse_eq_ok, Except.ok.injEq, not_or,
    not_not, Option.isSome_iff_ne_none, Bool.not_eq_false]
  constructor
  · rintro ⟨notice, decoded, _, ⟨fresh, active, reason, evidence⟩, affected, rooted, rfl⟩
    exact ⟨notice, ⟨decoded, fresh, active, ⟨reason, evidence⟩, ⟨affected, rooted⟩⟩, rfl⟩
  · rintro ⟨notice, ⟨decoded, fresh, active, ⟨reason, evidence⟩, ⟨affected, rooted⟩⟩, rfl⟩
    exact ⟨notice, decoded, (), ⟨fresh, active, reason, evidence⟩, affected, rooted, rfl⟩

structure Lifts (state : State) (data : Json.Members) (key : Name) (notice : QuarantineNotice)
    (reason : Option Reason) (evidence : Refs) : Prop where
  named : member data "notice_id" = .str key.val
  notice_at : state.notices.get? key = some notice
  reason_eq : Reason.optional.validate (member data "reason") = some reason
  evidence_eq : Refs.codec.validate (member data "evidence") = some evidence
  active : notice.active = true
  resolved : evidence.val ≠ []

/-- A notice after its resolution. -/
def lifted (notice : QuarantineNotice) (reason : Option Reason) (evidence : Refs) :
    QuarantineNotice :=
  { notice with active := false, resolutionReason := reason, resolutionEvidence := evidence }

theorem applyLift_eq_ok : state.applyLift data = .ok next ↔
    ∃ key notice reason evidence, Lifts state data key notice reason evidence ∧
      next = { state with
        notices := state.notices.set notice.noticeId (lifted notice reason evidence) } := by
  simp only [applyLift, bind_eq_ok, lookupBy_eq_ok, require_eq_ok, refuse_eq_ok, Except.ok.injEq,
    QuarantineNotice.updated_resolution, Option.bind_eq_bind, Option.bind_eq_some_iff,
    Option.some.injEq, not_or, Bool.not_eq_false]
  constructor
  · rintro ⟨notice, ⟨key, named, at_key⟩, _, ⟨reason, read, evidence, cited, rfl⟩, _,
      ⟨active, resolved⟩, rfl⟩
    exact ⟨key, notice, reason, evidence, ⟨named, at_key, read, cited, active, resolved⟩, rfl⟩
  · rintro ⟨key, notice, reason, evidence, ⟨named, at_key, read, cited, active, resolved⟩, rfl⟩
    exact ⟨notice, ⟨key, named, at_key⟩, _, ⟨reason, read, evidence, cited, rfl⟩, (),
      ⟨active, resolved⟩, rfl⟩

/-! ### Events -/

structure Expands (state : State) (data : Json.Members) (expansion : LimitExpansion) : Prop where
  shaped : hasShape data (shape .expandLimits) = true
  no_records : member data "artifacts" = .arr []
  decoded : LimitExpansion.codec.validate
    (.obj (data.filter fun member => member.1 ≠ "artifacts")) = some expansion
  contiguous : expansion.previousLimits = state.limits

theorem applyExpandLimits_eq_ok : state.applyExpandLimits data = .ok next ↔
    ∃ expansion, Expands state data expansion ∧
      next = { state with limits := expansion.limits } := by
  simp only [applyExpandLimits, bind_eq_ok, refuse_eq_ok, Bool.not_eq_false]
  constructor
  · rintro ⟨_, shaped, found⟩
    split at found
    next no_records =>
      simp only [bind_eq_ok, validated_eq_ok, refuse_eq_ok, not_not, Except.ok.injEq] at found
      obtain ⟨expansion, decoded, _, contiguous, rfl⟩ := found
      exact ⟨expansion, ⟨shaped, no_records, decoded, contiguous⟩, rfl⟩
    next => cases found
  · rintro ⟨expansion, ⟨shaped, no_records, decoded, contiguous⟩, rfl⟩
    refine ⟨(), shaped, ?_⟩
    simp only [no_records, bind_eq_ok, validated_eq_ok, refuse_eq_ok, not_not, Except.ok.injEq]
    exact ⟨expansion, decoded, (), contiguous, rfl⟩

theorem eventRecords_eq_ok {records : List ArtifactRecord} :
    eventRecords data = .ok records ↔
      (Codec.tuple ArtifactRecord.codec).validate (member data "artifacts") = some records := by
  rw [eventRecords]
  split
  next items same => rw [same, require_eq_ok]; rfl
  next other =>
    simp only [reduceCtorEq, false_iff]
    cases same : member data "artifacts" with
    | arr items => exact absurd same (other items)
    | _ => simp [Codec.tuple]

/-- An accepted event other than an expansion of the limits. -/
structure Installs (state : State) (action : Action) (data : Json.Members)
    (records : List ArtifactRecord) (installed : State) : Prop where
  shaped : hasShape data (shape action) = true
  decoded : (Codec.tuple ArtifactRecord.codec).validate (member data "artifacts") = some records
  bounded : records.length ≤ state.limits.maxClosureArtifacts.val
  installs : state.install records = .ok installed

theorem applyEvent_eq_ok {action : Action} : state.applyEvent sha256 action data = .ok next ↔
    ∃ records installed, Installs state action data records installed ∧
      installed.applyInstalled sha256 action data = .ok next := by
  simp only [applyEvent, bind_eq_ok, refuse_eq_ok, eventRecords_eq_ok, Bool.not_eq_false, not_lt]
  constructor
  · rintro ⟨_, shaped, records, decoded, _, bounded, installed, installs, applied⟩
    exact ⟨records, installed, ⟨shaped, decoded, bounded, installs⟩, applied⟩
  · rintro ⟨records, installed, ⟨shaped, decoded, bounded, installs⟩, applied⟩
    exact ⟨(), shaped, records, decoded, (), bounded, installed, installs, applied⟩

/-- What an accepted event does once its records are in the index. -/
inductive Change (sha256 : Bytes → Digest) (state : State) (data : Json.Members) :
    Action → State → Prop
  | register : Change sha256 state data .register state
  | enqueue {spec} (guard : Enqueues sha256 state data spec) :
      Change sha256 state data .enqueue { state with
        jobs := state.jobs.set (jobKey sha256 spec) (newJob (jobKey sha256 spec) spec) }
  | claim {claim job} (guard : Claims sha256 state data claim job) :
      Change sha256 state data .claim { state with
        attempts := state.attempts.set claim.attemptId ⟨claim, .running, none, Refs.empty⟩
        jobs := state.jobs.set job.jobId
          { job with state := .running, attempts := job.attempts ++ [claim.attemptId] } }
  | abandon {claim attempt job reason evidence}
      (guard : Abandons state data claim attempt job reason evidence) :
      Change sha256 state data .abandon { state with
        attempts := state.attempts.set claim.attemptId
          { attempt with state := .abandoned, reason, evidence }
        jobs := state.jobs.set job.jobId { job with state := interrupted job } }
  | retry {key job} (guard : Retries state data key job) :
      Change sha256 state data .retry { state with
        jobs := state.jobs.set job.jobId { job with state := .queued } }
  | reconcile {claim attempt job observation}
      (guard : Reconciles state data claim attempt job observation) :
      Change sha256 state data .reconcile { state with
        observations := state.observations.set (observationKey sha256 claim.attemptId observation)
          (newObservation sha256 claim.attemptId observation) }
  | complete {claim attempt job result} (guard : Completes state data claim attempt job result) :
      Change sha256 state data .complete { state with
        attempts := state.attempts.set claim.attemptId { attempt with state := .completed }
        jobs := state.jobs.set job.jobId (completedJob job result (state.wanted claim.attemptId)) }
  | quarantine {notice} (guard : Quarantines state data notice) :
      Change sha256 state data .quarantine
        { state with notices := state.notices.set notice.noticeId notice }
  | lift {key notice reason evidence} (guard : Lifts state data key notice reason evidence) :
      Change sha256 state data .lift { state with
        notices := state.notices.set notice.noticeId (lifted notice reason evidence) }

theorem applyInstalled_change {action : Action}
    (applied : state.applyInstalled sha256 action data = .ok next) :
    Change sha256 state data action next := by
  cases action with
  | register => exact Except.ok.inj applied ▸ .register
  | enqueue =>
      obtain ⟨spec, guard, rfl⟩ := applyEnqueue_eq_ok.mp applied
      exact .enqueue guard
  | claim =>
      obtain ⟨claim, job, guard, rfl⟩ := applyClaim_eq_ok.mp applied
      exact .claim guard
  | abandon =>
      obtain ⟨claim, attempt, job, reason, evidence, guard, rfl⟩ := applyAbandon_eq_ok.mp applied
      exact .abandon guard
  | retry =>
      obtain ⟨key, job, guard, rfl⟩ := applyRetry_eq_ok.mp applied
      exact .retry guard
  | reconcile =>
      obtain ⟨claim, attempt, job, observation, guard, rfl⟩ := applyReconcile_eq_ok.mp applied
      exact .reconcile guard
  | complete =>
      obtain ⟨claim, attempt, job, result, guard, rfl⟩ := applyComplete_eq_ok.mp applied
      exact .complete guard
  | quarantine =>
      obtain ⟨notice, guard, rfl⟩ := applyQuarantine_eq_ok.mp applied
      exact .quarantine guard
  | lift =>
      obtain ⟨key, notice, reason, evidence, guard, rfl⟩ := applyLift_eq_ok.mp applied
      exact .lift guard
  | expandLimits => cases applied

/-- One accepted event. -/
inductive Step (sha256 : Bytes → Digest) (state : State) (data : Json.Members) :
    Action → State → Prop
  | expand {expansion} (guard : Expands state data expansion) :
      Step sha256 state data .expandLimits { state with limits := expansion.limits }
  | event {action records installed next} (installs : Installs state action data records installed)
      (change : Change sha256 installed data action next) : Step sha256 state data action next

theorem apply_step {action : Action} (applied : state.apply sha256 action data = .ok next) :
    Step sha256 state data action next := by
  rw [apply] at applied
  split at applied
  next same =>
    subst same
    obtain ⟨expansion, guard, rfl⟩ := applyExpandLimits_eq_ok.mp applied
    exact .expand guard
  next =>
    obtain ⟨records, installed, installs, applied⟩ := applyEvent_eq_ok.mp applied
    exact .event installs (applyInstalled_change applied)

/-- Only an expansion changes the limits. -/
theorem Change.limits_eq {action : Action} (change : Change sha256 state data action next) :
    next.limits = state.limits := by
  cases change <;> rfl

theorem Step.limits_eq {action : Action} (step : Step sha256 state data action next)
    (other : action ≠ .expandLimits) : next.limits = state.limits := by
  cases step with
  | expand guard => exact absurd rfl other
  | event installs change =>
      obtain ⟨merged, _, _, rfl⟩ := install_eq_ok.mp installs.installs
      exact change.limits_eq

theorem Step.limits_le {action : Action} (step : Step sha256 state data action next) :
    state.limits.Le next.limits := by
  cases step with
  | expand guard => exact guard.contiguous ▸ LimitExpansion.le _
  | event installs change =>
      obtain ⟨merged, _, _, rfl⟩ := install_eq_ok.mp installs.installs
      exact change.limits_eq ▸ RegistryLimits.Le.refl _

/-! ### Runs -/

/-- Apply events from first to last. -/
def run (sha256 : Bytes → Digest) (state : State) (events : List (Action × Json.Members)) :
    Outcome State :=
  foldAll (fun state event => state.apply sha256 event.1 event.2) state events

theorem run_concat_eq_ok {events : List (Action × Json.Members)} {action : Action} :
    state.run sha256 (events ++ [(action, data)]) = .ok next ↔
      ∃ middle, state.run sha256 events = .ok middle ∧
        middle.apply sha256 action data = .ok next :=
  foldAll_concat_eq_ok

/-- What holds of the empty state and is kept by every accepted event holds after every run. -/
theorem run_induction {motive : List (Action × Json.Members) → State → Prop}
    (start : motive [] state)
    (step : ∀ events before action data after, state.run sha256 events = .ok before →
      motive events before → Step sha256 before data action after →
      motive (events ++ [(action, data)]) after)
    {events : List (Action × Json.Members)} (ran : state.run sha256 events = .ok next) :
    motive events next := by
  induction events using List.reverseRecOn generalizing next with
  | nil => exact Except.ok.inj ran ▸ start
  | append_singleton events last ih =>
      obtain ⟨middle, earlier, applied⟩ := run_concat_eq_ok.mp ran
      exact step events middle _ _ next earlier (ih earlier) (apply_step applied)

/-! ### Hashed documents -/

/-- The document that applying an event hashes. -/
def hashedDocument (action : Action) (data : Json.Members) : Option Json :=
  match action with
  | .enqueue => (JobSpec.codec.validate (member data "spec")).map JobSpec.codec.document
  | .claim => (Claim.codec.validate (member data "claim")).map fun claim =>
      attemptDocument claim.jobId claim.claimKey claim.owner
  | .reconcile => do
      let claim ← Claim.codec.validate (member data "claim")
      let observation ← CostObservation.codec.validate (member data "observation")
      some (observationDocument claim.attemptId observation)
  | _ => none

/-- Everything that a run hashes. -/
def hashedBy (events : List (Action × Json.Members)) : Set Bytes :=
  {bytes | ∃ event ∈ events, ∃ document ∈ hashedDocument event.1 event.2,
    document.canonical = bytes}

theorem hashedBy_append (first second : List (Action × Json.Members)) :
    hashedBy (first ++ second) = hashedBy first ∪ hashedBy second := by
  ext bytes
  simp only [hashedBy, List.mem_append, Set.mem_ofPred_eq, Set.mem_union, or_and_right, exists_or]

theorem hashedBy_concat_subset {events : List (Action × Json.Members)} {action : Action}
    {documents : Set Bytes} (within : hashedBy (events ++ [(action, data)]) ⊆ documents) :
    hashedBy events ⊆ documents ∧
      ∀ document ∈ hashedDocument action data, document.canonical ∈ documents := by
  rw [hashedBy_append, Set.union_subset_iff] at within
  refine ⟨within.1, fun document hashed => within.2 ⟨_, List.mem_singleton_self _, document, hashed, rfl⟩⟩

end State

end FeatureRl
