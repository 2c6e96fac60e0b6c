import FeatureRl.Contracts.Samples
import FeatureRl.Registry.JobSteps
import Mathlib.Data.Finset.Sort

/-!
Source admission: a factory imports the original costs of a candidate under the candidate lock, and calls of
other factories, recoveries and retried publications work on the same registry.
-/

namespace FeatureRl

open Checked

namespace SourceAdmission

/-! ### Candidates and receipts -/

inductive LicenseStatus where
  | verified | unknown | ineligible
deriving DecidableEq

structure LicenseRecord where
  spdxId : Option Text
  licenseText : Option ArtifactRef
  status : LicenseStatus
  evidence : List EvidenceRecord
deriving DecidableEq

structure ScreeningDecision where
  disposition : Disposition
  reason : Text
  evidence : List EvidenceRecord
deriving DecidableEq

/-- A candidate with the length of the canonical document of its screening, license and costs. -/
structure CandidateRecord where
  repositoryFamily : Identifier
  requestLineage : List Identifier
  partition : Partition
  license : LicenseRecord
  screening : ScreeningDecision
  costs : List CostRecord
  originalBytes : Nat

inductive SourceStatus where
  | eligible | rejected | unresolved
deriving DecidableEq

structure SourceDisposition where
  claim : Claim
  candidate : ArtifactRef
  repositoryFamily : Identifier
  requestLineage : List Identifier
  screening : ScreeningDecision
  license : LicenseRecord
  partition : Partition
  sourceStatus : SourceStatus
  disposition : Disposition
  reason : String
  originalCosts : List CostRecord
  costs : List CostRecord
  revision : Revision
  recordedAt : Timestamp

def truncated (reason : Text) : String := String.ofList (reason.val.toList.take 4096)

def sourceDecision (candidate : CandidateRecord) : SourceStatus × Disposition × String :=
  if candidate.screening.disposition = .rejected then
    (.rejected, .rejected, truncated candidate.screening.reason)
  else if candidate.license.status = .ineligible then
    (.rejected, .rejected, "Actual retained source license is ineligible")
  else if candidate.screening.disposition ≠ .success then
    (.unresolved, candidate.screening.disposition, truncated candidate.screening.reason)
  else if candidate.license.status ≠ .verified ∨ candidate.license.licenseText = none then
    (.unresolved, .blocked, "Source license evidence is unresolved")
  else if candidate.partition = .unassigned then
    (.unresolved, .blocked, "Repository family/lineage partition is unassigned")
  else (.eligible, .success,
    "Frozen candidate source prerequisites are eligible; no BUILT or released task is asserted")

/-- What the artifacts of the shared store hold. -/
structure Contents where
  candidate : ArtifactRef → Option CandidateRecord
  disposition : ArtifactRef → Option SourceDisposition
  policy : ArtifactRef → Option Revision

/-- A process that runs the factory; its configuration is the source policy of its revision. -/
structure Factory where
  revision : Revision
  sourceConfiguration : ArtifactRef

def invocation : Name := ⟨"m6-source-admission", by decide +kernel⟩

def sourceSpec (factory : Factory) (candidate : ArtifactRef) : JobSpec where
  operation := .construct
  inputs := ⟨[candidate], rfl⟩
  configuration := factory.sourceConfiguration
  implementation := factory.revision
  invocation := invocation
  attemptLimit := ⟨3, three_within_100⟩
  distinct := by simp

def isSourceJob (candidate : ArtifactRef) (spec : JobSpec) : Bool :=
  spec.operation = .construct && spec.invocation = invocation && spec.inputs.val = [candidate]

/-- The receipt says what the candidate says. -/
structure MatchesValue (receipt : SourceDisposition) (value : CandidateRecord) : Prop where
  repositoryFamily : receipt.repositoryFamily = value.repositoryFamily
  requestLineage : receipt.requestLineage = value.requestLineage
  screening : receipt.screening = value.screening
  license : receipt.license = value.license
  partition : receipt.partition = value.partition
  originalCosts : receipt.originalCosts = value.costs
  decision : (receipt.sourceStatus, receipt.disposition, receipt.reason) = sourceDecision value

instance (receipt : SourceDisposition) (value : CandidateRecord) : Decidable (MatchesValue receipt value) :=
  decidable_of_iff (receipt.repositoryFamily = value.repositoryFamily ∧
      receipt.requestLineage = value.requestLineage ∧ receipt.screening = value.screening ∧
      receipt.license = value.license ∧ receipt.partition = value.partition ∧
      receipt.originalCosts = value.costs ∧
      (receipt.sourceStatus, receipt.disposition, receipt.reason) = sourceDecision value)
    ⟨fun ⟨family, lineage, screening, license, partition, costs, decision⟩ =>
      ⟨family, lineage, screening, license, partition, costs, decision⟩,
    fun same => ⟨same.repositoryFamily, same.requestLineage, same.screening, same.license, same.partition,
      same.originalCosts, same.decision⟩⟩

/-! ### The lookup -/

inductive Refusal where
  | value (message : String)
  | recovery (message : String)
  | registry (failure : Failure)

inductive Lookup where
  | finished (result : OperationResult)
  | proceed

def readJobs (state : State) : List Digest → Outcome (List JobRecord)
  | [] => .ok []
  | jobId :: rest => do
      let job ← state.getJob jobId
      let others ← readJobs state rest
      .ok (job :: others)

section

local instance transDigest : IsTrans Digest (· ≤ ·) := inferInstance

local instance antisymmDigest : Std.Antisymm fun one two : Digest => one ≤ two := inferInstance

local instance totalDigest : Std.Total fun one two : Digest => one ≤ two := inferInstance

/-- The jobs of a trace; the notices that reach it are traced as well. -/
def traced (state : State) (candidate : ArtifactRef) : Outcome (List JobRecord) := do
  let affected ← state.affected candidate
  refuse (state.limits.maxArtifacts.val < affected.1.card) ⟨.limit, "trace exceeds artifact index capacity"⟩
  checkAll (fun notice : QuarantineNotice => (state.affected notice.root).map fun _ => ()) state.notices.values
  readJobs state affected.2.sort

end

/-- A candidate that the registry does not know has no jobs. -/
def candidateJobs (state : State) (candidate : ArtifactRef) : Outcome (List JobRecord) :=
  match traced state candidate with
  | .ok jobs => .ok jobs
  | .error failure => if failure.kind = .unknownIdentity then .ok [] else .error failure

def attempts (state : State) (job : JobRecord) : List AttemptRecord := job.attempts.filterMap state.attempts.get?

/-- The receipt and the policy of a completed import. -/
def priorResult (contents : Contents) (state : State) (candidate : ArtifactRef) (value : CandidateRecord)
    (prior : JobRecord) : Except Refusal OperationResult :=
  match prior.result with
  | none => .error (.value "invalid selected source result")
  | some result =>
      match result.artifacts with
      | [ref] => do
          let record ← require (contents.disposition ref) (.value "source disposition is unreadable")
          let policy ← require (contents.policy prior.spec.configuration) (.value "source policy is unreadable")
          refuse (prior.spec.configuration.kind.val ≠ "m6-source-policy" ∨ policy ≠ record.revision ∨
              prior.spec.implementation ≠ record.revision ∨ record.claim.jobId ≠ prior.jobId ∨
              record.candidate ≠ candidate ∨
              ¬ (attempts state prior).any (fun item => item.claim = record.claim ∧ item.state = .completed) ∨
              result.disposition ≠ record.disposition ∨ result.costs.isEqv record.costs CostRecord.equal = false)
            (.value "historical source import lacks exact selected policy/claim/result")
          refuse (¬ MatchesValue record value)
            (.value "source receipt differs from exact retained candidate disposition")
          .ok result
      | _ => .error (.value "invalid selected source result")

/-- What a call does about earlier imports: return a completed one, resume its own unclaimed job, or raise. -/
def lookup (contents : Contents) (factory : Factory) (state : State) (candidate : ArtifactRef) :
    Except Refusal Lookup := do
  let value ← require (contents.candidate candidate) (.value "candidate is unreadable")
  refuse (1024 * 1024 / 2 < value.originalBytes ∨ 256 < value.costs.length)
    (.value "source metadata/cost snapshot exceeds bounded Factory admission input")
  let jobs ← (candidateJobs state candidate).mapError .registry
  match jobs.filter fun job => isSourceJob candidate job.spec with
  | [] => .ok .proceed
  | [prior] =>
      if prior.state = .queued ∧ prior.spec = sourceSpec factory candidate ∧ prior.attempts = [] then
        .ok .proceed
      else if prior.state ≠ .completed then
        if prior.attempts = [] then
          .error (.registry ⟨.conflict, "source job is queued; resume its original Factory configuration"⟩)
        else .error (.recovery "source import exists; recover its original attempt/configuration")
      else do
        let result ← priorResult contents state candidate value prior
        .ok (.finished result)
  | _ => .error (.value "ambiguous historical source imports require reconciliation")

/-! ### Calls -/

/-- How far a call is. The first five phases are those of a call that holds the candidate lock. -/
inductive Phase where
  | started
  | proposed
  | queued (jobId : Digest)
  | claimed (claim : Claim)
  | intended (claim : Claim)
  | recovering (claim : Claim)
  | opened (claim : Claim)
  | selected (claim : Claim) (receipt : SourceDisposition) (ref : ArtifactRef)
  | retained (claim : Claim) (receipt : SourceDisposition)
  | checked (claim : Claim) (receipt : SourceDisposition)
  | registered (claim : Claim) (receipt : SourceDisposition) (ref : ArtifactRef)
  | frozen (receipt : SourceDisposition) (ref : ArtifactRef)
  | accounted (receipt : SourceDisposition) (ref : ArtifactRef)

def Phase.locked : Phase → Bool
  | started | proposed | queued _ | claimed _ | intended _ => true
  | _ => false

inductive Progress where
  | goes (phase : Phase)
  | returns (result : OperationResult)

/-- The registry, the attempts that were claimed for the candidate, and the attempts under which a receipt was
recorded or found recorded, with its costs. -/
structure Ledger where
  registry : State
  imports : List Digest
  recorded : List (Digest × List CostRecord)

def HasClaim (state : State) (claim : Claim) : Prop :=
  ∃ job, state.jobs.get? claim.jobId = some job ∧ ∃ item ∈ attempts state job, item.claim = claim

/-- What `_source_record` checks of a receipt that is published under a claim. -/
structure IsSourceRecord (contents : Contents) (factory : Factory) (state : State) (claim : Claim)
    (receipt : SourceDisposition) : Prop where
  own : receipt.claim = claim
  revision : receipt.revision = factory.revision
  job : ∃ job, state.jobs.get? claim.jobId = some job ∧ job.spec = sourceSpec factory receipt.candidate
  attempt : HasClaim state claim
  value : ∃ value, contents.candidate receipt.candidate = some value ∧ MatchesValue receipt value

/-- The observation of a claim at a revision. -/
structure IsObservation (claim : Claim) (revision : Nat) (costs : List CostRecord)
    (observation : CostObservation) : Prop where
  source : observation.source.val = "m6-source"
  upstream : observation.upstreamAttemptId.val = claim.attemptId.val
  revision : observation.revision.val = revision
  costs : observation.costs = costs

structure IsReceipt (collapseCosts : List CostRecord → List CostRecord) (factory : Factory)
    (candidate : ArtifactRef) (value : CandidateRecord) (claim : Claim) (receipt : SourceDisposition) :
    Prop where
  own : receipt.claim = claim
  subject : receipt.candidate = candidate
  same : MatchesValue receipt value
  revision : receipt.revision = factory.revision
  costs : ∃ controller storage : CostRecord, controller.category = .construction ∧
    storage.category = .storage ∧ receipt.costs = collapseCosts (value.costs ++ [controller, storage])

def evidenceOf (factory : Factory) (receipt : SourceDisposition) (ref : ArtifactRef) (sha256 : Text) :
    EvidenceRecord where
  producer := ⟨"feature_rl.pipeline.Factory", by decide +kernel⟩
  command := [⟨"Factory.screen_source", by decide +kernel⟩, sha256]
  recordedAt := receipt.recordedAt
  exitStatus := if receipt.disposition = .success then 0 else 1
  artifacts := [ref]
  revision := factory.revision
  scope := .sourceInspection
  nonempty := by simp

structure IsResult (factory : Factory) (receipt : SourceDisposition) (ref : ArtifactRef)
    (result : OperationResult) : Prop where
  operation : result.operation = .construct
  disposition : result.disposition = receipt.disposition
  artifacts : result.artifacts = [ref]
  evidence : ∃ sha256 : Text, sha256.val = receipt.candidate.sha256.val ∧
    result.evidence = [evidenceOf factory receipt ref sha256]
  costs : result.costs = receipt.costs
  reason : result.reason.val = receipt.reason

/-- The only accounting snapshot of the attempt. -/
def Snapshot (state : State) (claim : Claim) (item : ObservationRecord) : Prop :=
  ∃ report, state.accounting claim.jobId = .ok report ∧
    report.observations.filter (fun other => other.attemptId = claim.attemptId) = [item]

section

variable (sha256 : Bytes → Digest) (contents : Contents) (collapseCosts : List CostRecord → List CostRecord)
  (candidate : ArtifactRef)

/-- One step of a call: one registry operation, or one check between two of them. A registry operation that
finds its own event does nothing. -/
inductive CallStep (factory : Factory) (ledger : Ledger) : Phase → Ledger → Progress → Prop
  | finished {result : OperationResult}
      (found : lookup contents factory ledger.registry candidate = .ok (.finished result)) :
      CallStep factory ledger .started ledger (.returns result)
  | proceed (found : lookup contents factory ledger.registry candidate = .ok .proceed) :
      CallStep factory ledger .started ledger (.goes .proposed)
  | enqueue {data : Json.Members} {next : State}
      (decoded : JobSpec.codec.validate (member data "spec") = some (sourceSpec factory candidate))
      (event : State.Step sha256 ledger.registry data .enqueue next) :
      CallStep factory ledger .proposed { ledger with registry := next }
        (.goes (.queued (State.jobKey sha256 (sourceSpec factory candidate))))
  | enqueued {job : JobRecord}
      (found : ledger.registry.jobs.get? (State.jobKey sha256 (sourceSpec factory candidate)) = some job)
      (same : job.spec = sourceSpec factory candidate) (queued : job.state = .queued) :
      CallStep factory ledger .proposed ledger
        (.goes (.queued (State.jobKey sha256 (sourceSpec factory candidate))))
  | enqueuedCompleted {job : JobRecord} {result : OperationResult}
      (found : ledger.registry.jobs.get? (State.jobKey sha256 (sourceSpec factory candidate)) = some job)
      (same : job.spec = sourceSpec factory candidate) (completed : job.state = .completed)
      (held : job.result = some result) :
      CallStep factory ledger .proposed ledger (.returns result)
  | claim {jobId : Digest} {claim : Claim} {data : Json.Members} {next : State}
      (decoded : Claim.codec.validate (member data "claim") = some claim) (own : claim.jobId = jobId)
      (event : State.Step sha256 ledger.registry data .claim next) :
      CallStep factory ledger (.queued jobId)
        { ledger with registry := next, imports := ledger.imports ++ [claim.attemptId] }
        (.goes (.claimed claim))
  | intend {claim : Claim} {costs : List CostRecord} {observation : CostObservation} {data : Json.Members}
      {next : State} (decoded : Claim.codec.validate (member data "claim") = some claim)
      (observed : CostObservation.codec.validate (member data "observation") = some observation)
      (is : IsObservation claim 1 costs observation)
      (event : State.Step sha256 ledger.registry data .reconcile next) :
      CallStep factory ledger (.claimed claim) { ledger with registry := next } (.goes (.intended claim))
  | decide {claim : Claim} {value : CandidateRecord} {receipt : SourceDisposition}
      (found : contents.candidate candidate = some value)
      (is : IsReceipt collapseCosts factory candidate value claim receipt) :
      CallStep factory ledger (.intended claim) ledger (.goes (.retained claim receipt))
  | check {claim : Claim} {receipt : SourceDisposition}
      (accepted : IsSourceRecord contents factory ledger.registry claim receipt) :
      CallStep factory ledger (.retained claim receipt) ledger (.goes (.checked claim receipt))
  | register {claim : Claim} {receipt : SourceDisposition} {ref : ArtifactRef} {data : Json.Members}
      {next : State} (stored : contents.disposition ref = some receipt)
      (event : State.Step sha256 ledger.registry data .register next) :
      CallStep factory ledger (.checked claim receipt) { ledger with registry := next }
        (.goes (.registered claim receipt ref))
  | registered {claim : Claim} {receipt : SourceDisposition} {ref : ArtifactRef}
      (stored : contents.disposition ref = some receipt) (known : ledger.registry.registered ref = true) :
      CallStep factory ledger (.checked claim receipt) ledger (.goes (.registered claim receipt ref))
  | freeze {claim : Claim} {receipt : SourceDisposition} {ref : ArtifactRef} {observation : CostObservation}
      {data : Json.Members} {next : State} (decoded : Claim.codec.validate (member data "claim") = some claim)
      (observed : CostObservation.codec.validate (member data "observation") = some observation)
      (is : IsObservation claim 2 receipt.costs observation)
      (event : State.Step sha256 ledger.registry data .reconcile next) :
      CallStep factory ledger (.registered claim receipt ref)
        { ledger with
          registry := next, recorded := ledger.recorded ++ [(claim.attemptId, receipt.costs)] }
        (.goes (.frozen receipt ref))
  | refreeze {claim : Claim} {receipt : SourceDisposition} {ref : ArtifactRef} {item : ObservationRecord}
      (present : item ∈ ledger.registry.observations.values) (own : item.attemptId = claim.attemptId)
      (is : IsObservation claim 2 receipt.costs item.observation) :
      CallStep factory ledger (.registered claim receipt ref) ledger (.goes (.frozen receipt ref))
  | finish {receipt : SourceDisposition} {ref : ArtifactRef} {job : JobRecord} {result : OperationResult}
      (found : ledger.registry.jobs.get? receipt.claim.jobId = some job) (completed : job.state = .completed)
      (held : job.result = some result) :
      CallStep factory ledger (.frozen receipt ref) ledger (.returns result)
  | account {receipt : SourceDisposition} {ref : ArtifactRef} {item : ObservationRecord}
      (snapshot : Snapshot ledger.registry receipt.claim item) (revision : item.observation.revision.val = 2)
      (costs : item.observation.costs = receipt.costs) :
      CallStep factory ledger (.frozen receipt ref)
        { ledger with recorded := ledger.recorded ++ [(receipt.claim.attemptId, receipt.costs)] }
        (.goes (.accounted receipt ref))
  | complete {receipt : SourceDisposition} {ref : ArtifactRef} {result : OperationResult}
      {data : Json.Members} {next : State}
      (decoded : Claim.codec.validate (member data "claim") = some receipt.claim)
      (read : OperationResult.codec.validate (member data "result") = some result)
      (is : IsResult factory receipt ref result)
      (event : State.Step sha256 ledger.registry data .complete next) :
      CallStep factory ledger (.accounted receipt ref) { ledger with registry := next } (.returns result)
  | completed {receipt : SourceDisposition} {ref : ArtifactRef} {job : JobRecord} {result : OperationResult}
      (found : ledger.registry.jobs.get? receipt.claim.jobId = some job) (completed : job.state = .completed)
      (held : job.result = some result) (is : IsResult factory receipt ref result) :
      CallStep factory ledger (.accounted receipt ref) ledger (.returns result)
  | recovered {claim : Claim} {job : JobRecord} {result : OperationResult}
      (found : ledger.registry.jobs.get? claim.jobId = some job) (actual : HasClaim ledger.registry claim)
      (configured : job.spec.configuration = factory.sourceConfiguration) (completed : job.state = .completed)
      (held : job.result = some result) :
      CallStep factory ledger (.recovering claim) ledger (.returns result)
  | open {claim : Claim} {job : JobRecord} (found : ledger.registry.jobs.get? claim.jobId = some job)
      (actual : HasClaim ledger.registry claim)
      (configured : job.spec.configuration = factory.sourceConfiguration) (pending : job.state ≠ .completed) :
      CallStep factory ledger (.recovering claim) ledger (.goes (.opened claim))
  | select {claim : Claim} {item : ObservationRecord} {ref : ArtifactRef} {receipt : SourceDisposition}
      (snapshot : Snapshot ledger.registry claim item) (revision : item.observation.revision.val = 2)
      (only : item.observation.receipts.val.filter (fun other => other.kind.val = "m6-source-disposition") = [ref])
      (stored : contents.disposition ref = some receipt) :
      CallStep factory ledger (.opened claim) ledger (.goes (.selected claim receipt ref))
  | trust {claim : Claim} {receipt : SourceDisposition} {ref : ArtifactRef}
      (accepted : IsSourceRecord contents factory ledger.registry claim receipt) :
      CallStep factory ledger (.selected claim receipt ref) ledger (.goes (.frozen receipt ref))

/-! ### Runs -/

structure Call where
  factory : Factory
  phase : Phase

/-- The ledger, the call that holds the lock of the candidate, the calls that need no lock, and what calls
returned. -/
structure System where
  ledger : Ledger
  holder : Option Call
  others : List Call
  returned : List OperationResult

/-- A registry event that no source admission of the candidate makes. -/
structure Foreign (state : State) (action : Action) (data : Json.Members) : Prop where
  enqueue : action = .enqueue → ∀ spec, JobSpec.codec.validate (member data "spec") = some spec →
    isSourceJob candidate spec = false
  moves : action = .claim ∨ action = .complete → ∀ claim,
    Claim.codec.validate (member data "claim") = some claim → ∀ job,
      state.jobs.get? claim.jobId = some job → isSourceJob candidate job.spec = false

/-- A recovery is called with a claim of a source admission of the candidate, and a retried publication with a
receipt of the candidate. A call that raises or crashes stops; what it wrote stays, and its lock is free. -/
inductive SystemStep : System → System → Prop
  | screenSource {system : System} (factory : Factory) (free : system.holder = none) :
      SystemStep system { system with holder := some ⟨factory, .started⟩ }
  | recover {system : System} (factory : Factory) (claim : Claim) {job : JobRecord}
      (found : system.ledger.registry.jobs.get? claim.jobId = some job)
      (subject : isSourceJob candidate job.spec = true) :
      SystemStep system { system with others := ⟨factory, .recovering claim⟩ :: system.others }
  | retryPublication {system : System} (factory : Factory) (claim : Claim) (receipt : SourceDisposition)
      (subject : receipt.candidate = candidate) :
      SystemStep system { system with others := ⟨factory, .retained claim receipt⟩ :: system.others }
  | holderGoes {system : System} {call : Call} {ledger : Ledger} {phase : Phase}
      (holds : system.holder = some call)
      (step : CallStep sha256 contents collapseCosts candidate call.factory system.ledger call.phase ledger
        (.goes phase)) :
      SystemStep system { system with ledger := ledger, holder := some { call with phase := phase } }
  | holderReturns {system : System} {call : Call} {ledger : Ledger} {result : OperationResult}
      (holds : system.holder = some call)
      (step : CallStep sha256 contents collapseCosts candidate call.factory system.ledger call.phase ledger
        (.returns result)) :
      SystemStep system { system with
        ledger := ledger, holder := none, returned := system.returned ++ [result] }
  | otherGoes {system : System} {before after : List Call} {call : Call} {ledger : Ledger} {phase : Phase}
      (runs : system.others = before ++ call :: after)
      (step : CallStep sha256 contents collapseCosts candidate call.factory system.ledger call.phase ledger
        (.goes phase)) :
      SystemStep system { system with
        ledger := ledger, others := before ++ { call with phase := phase } :: after }
  | otherReturns {system : System} {before after : List Call} {call : Call} {ledger : Ledger}
      {result : OperationResult} (runs : system.others = before ++ call :: after)
      (step : CallStep sha256 contents collapseCosts candidate call.factory system.ledger call.phase ledger
        (.returns result)) :
      SystemStep system { system with
        ledger := ledger, others := before ++ after, returned := system.returned ++ [result] }
  | holderStops {system : System} : SystemStep system { system with holder := none }
  | otherStops {system : System} {before after : List Call} {call : Call}
      (runs : system.others = before ++ call :: after) :
      SystemStep system { system with others := before ++ after }
  | foreign {system : System} {action : Action} {data : Json.Members} {next : State}
      (quiet : Foreign candidate system.ledger.registry action data)
      (event : State.Step sha256 system.ledger.registry data action next) :
      SystemStep system { system with ledger := { system.ledger with registry := next } }

inductive Reaches (system : System) : System → Prop
  | refl : Reaches system system
  | step {middle next : System} (earlier : Reaches system middle)
      (step : SystemStep sha256 contents collapseCosts candidate middle next) : Reaches system next

end

end SourceAdmission

end FeatureRl
