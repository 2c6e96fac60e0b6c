import FeatureRl.Contracts.Samples
import FeatureRl.Registry.JobSteps
import Mathlib.Algebra.Order.BigOperators.Group.List
import Mathlib.Data.Finset.Sort

/-!
Authoring attempts: what is reserved before an attempt is enqueued, and the steps in which
attempts are enqueued, claimed, dispatched and settled over one registry.
-/

namespace FeatureRl

open Checked

namespace Authoring

/-! ### Requests -/

structure Limits where
  inputTokens : Nat
  outputTokens : Nat
  wallSeconds : ℚ
  cpuSeconds : ℚ
  declaredMemoryCeilingBytes : Nat
deriving DecidableEq

/-- An authoring call by its canonical document and the limits of its generation request. -/
structure AuthoringCall where
  document : Bytes
  limits : Limits
deriving DecidableEq

structure AuthoringRequest where
  candidate : ArtifactRef
  frontier : ArtifactRef
  call : AuthoringCall
  lane : Identifier
deriving DecidableEq

structure AuthoringCaps where
  inputTokens : Nat
  outputTokens : Nat
  wallSeconds : ℚ
  cpuSeconds : ℚ
  commands : Nat
  memoryBytes : Nat
  spendUsd : Option ℚ

structure AuthoringBatch where
  candidates : List ArtifactRef
  candidateCaps : AuthoringCaps
  batchCaps : AuthoringCaps
  distinct : candidates.Nodup

/-- A process that runs the factory. -/
structure Factory where
  revision : Revision
  configuration : ArtifactRef

def stageLane (_call : AuthoringCall) : Identifier := ⟨"contract", isIdentifier_contract⟩

def invocationPrefix : String := "m6-author:"

/-! ### Attempts in the registry -/

def isAuthoring (spec : JobSpec) : Bool :=
  spec.operation = .construct ∧ invocationPrefix.toList.isPrefixOf spec.invocation.val.toList

def invocationOf (lane : Identifier) : String := invocationPrefix ++ lane.val

/-- The specification of an attempt at a stored request. -/
structure IsSpec (factory : Factory) (request : AuthoringRequest) (ref : ArtifactRef) (spec : JobSpec) : Prop where
  operation : spec.operation = .construct
  inputs : spec.inputs.val = [request.candidate, ref]
  configuration : spec.configuration = factory.configuration
  implementation : spec.implementation = factory.revision
  invocation : spec.invocation.val = invocationOf request.lane
  attemptLimit : spec.attemptLimit.val = 1

def lineage : Failure := ⟨.validation, "authoring request/job lineage differs"⟩

/-- The request of a traced job when the job is an attempt at the candidate. -/
def readJob (records : ArtifactRef → Option AuthoringRequest) (candidate : ArtifactRef) (job : JobRecord) :
    Outcome (Option (JobRecord × AuthoringRequest)) :=
  if isAuthoring job.spec then
    match job.spec.inputs.val with
    | [subject, ref] =>
        if subject = candidate then do
          let request ← require (records ref) invalid
          refuse (request.candidate ≠ candidate ∨ job.spec.invocation.val ≠ invocationOf request.lane) lineage
          .ok (some (job, request))
        else .ok none
    | _ => .error ⟨.validation, "authoring job changed its exact candidate inputs"⟩
  else .ok none

def readJobs (records : ArtifactRef → Option AuthoringRequest) (state : State) (candidate : ArtifactRef) :
    List Digest → Outcome (List (JobRecord × AuthoringRequest))
  | [] => .ok []
  | jobId :: rest => do
      let job ← state.getJob jobId
      let found ← readJob records candidate job
      let others ← readJobs records state candidate rest
      .ok (found.toList ++ others)

/-- The attempts at a candidate, in the order of their identities. -/
def jobs (records : ArtifactRef → Option AuthoringRequest) (state : State) (candidate : ArtifactRef) :
    Outcome (List (JobRecord × AuthoringRequest)) := do
  let affected ← state.affected candidate
  readJobs records state candidate affected.2.sort

/-! ### Reservations -/

structure Usage where
  inputTokens : Nat
  outputTokens : Nat
  wallSeconds : ℚ
  cpuSeconds : ℚ
  commands : Nat
  memoryBytes : Nat

structure Usage.Within (usage : Usage) (caps : AuthoringCaps) : Prop where
  inputTokens : usage.inputTokens ≤ caps.inputTokens
  outputTokens : usage.outputTokens ≤ caps.outputTokens
  wallSeconds : usage.wallSeconds ≤ caps.wallSeconds
  cpuSeconds : usage.cpuSeconds ≤ caps.cpuSeconds
  commands : usage.commands ≤ caps.commands
  memoryBytes : usage.memoryBytes ≤ caps.memoryBytes

def generationSource : String := "m6-generation"

/-- The costs that generation reported for a job. -/
def observedCosts (state : State) (job : JobRecord) : Outcome (List CostRecord) := do
  let report ← state.accounting job.jobId
  .ok ((report.observations.filter fun item => item.observation.source.val = generationSource).flatMap
    fun item => item.observation.costs)

def seconds (value : Option NonnegativeFloat) : ℚ := (value.map fun number => number.val.value).getD 0

/-- What one call reserves: its ceilings, or its known usage where that is larger. The hard limit on CPU
time is a second above the declared one. -/
def charge (limits : Limits) (observed : List CostRecord) : Usage where
  inputTokens := max limits.inputTokens (observed.map fun cost => cost.inputTokens.getD 0).sum
  outputTokens := max limits.outputTokens (observed.map fun cost => cost.outputTokens.getD 0).sum
  wallSeconds := max limits.wallSeconds (observed.map fun cost => seconds cost.wallSeconds).sum
  cpuSeconds := max (limits.cpuSeconds + 1) (observed.map fun cost => seconds cost.cpuSeconds).sum
  commands := 1
  memoryBytes := limits.declaredMemoryCeilingBytes

def Usage.none : Usage := ⟨0, 0, 0, 0, 0, 0⟩

def Usage.add (total usage : Usage) : Usage where
  inputTokens := total.inputTokens + usage.inputTokens
  outputTokens := total.outputTokens + usage.outputTokens
  wallSeconds := total.wallSeconds + usage.wallSeconds
  cpuSeconds := total.cpuSeconds + usage.cpuSeconds
  commands := total.commands + usage.commands
  memoryBytes := max total.memoryBytes usage.memoryBytes

/-- The charges of the attempts and then of the proposed call. -/
def reserved (state : State) (entries : List (JobRecord × AuthoringRequest)) (proposed : AuthoringCall) :
    Outcome Usage := do
  let total ← foldAll (fun total (job, request) => do
    let observed ← observedCosts state job
    .ok (Usage.add total (charge request.call.limits observed))) Usage.none entries
  .ok (total.add (charge proposed.limits []))

inductive Refusal where
  | exceeded
  | unverified
  | registry (failure : Failure)

instance (usage : Usage) (caps : AuthoringCaps) : Decidable (usage.Within caps) :=
  decidable_of_iff (usage.inputTokens ≤ caps.inputTokens ∧ usage.outputTokens ≤ caps.outputTokens ∧
      usage.wallSeconds ≤ caps.wallSeconds ∧ usage.cpuSeconds ≤ caps.cpuSeconds ∧
      usage.commands ≤ caps.commands ∧ usage.memoryBytes ≤ caps.memoryBytes)
    ⟨fun ⟨input, output, wall, cpu, commands, memory⟩ => ⟨input, output, wall, cpu, commands, memory⟩,
      fun within => ⟨within.inputTokens, within.outputTokens, within.wallSeconds, within.cpuSeconds,
        within.commands, within.memoryBytes⟩⟩

def fromRegistry {α : Type} (outcome : Outcome α) : Except Refusal α := outcome.mapError .registry

def checkCaps (state : State) (caps : AuthoringCaps) (entries : List (JobRecord × AuthoringRequest))
    (proposed : AuthoringCall) : Except Refusal Unit := do
  let usage ← fromRegistry (reserved state entries proposed)
  refuse (¬ usage.Within caps) .exceeded
  refuse (caps.spendUsd ≠ none) .unverified

/-- The attempts at a member of the batch; a member that the registry does not know has none. -/
def memberJobs (records : ArtifactRef → Option AuthoringRequest) (state : State) (candidate : ArtifactRef) :
    Outcome (List (JobRecord × AuthoringRequest)) :=
  match jobs records state candidate with
  | .error failure => if failure.kind = .unknownIdentity then .ok [] else .error failure
  | .ok entries => .ok entries

def groups (records : ArtifactRef → Option AuthoringRequest) (state : State) :
    List ArtifactRef → Outcome (List (ArtifactRef × JobRecord × AuthoringRequest))
  | [] => .ok []
  | member :: rest => do
      let entries ← memberJobs records state member
      let others ← groups records state rest
      .ok (entries.map (fun entry => (member, entry)) ++ others)

/-- Reserve a whole call across the batch before it is enqueued. -/
def checkBudget (records : ArtifactRef → Option AuthoringRequest) (batch : AuthoringBatch) (state : State)
    (candidate : ArtifactRef) (call : AuthoringCall) : Except Refusal Unit := do
  let members ← fromRegistry (groups records state batch.candidates)
  checkCaps state batch.candidateCaps
    ((members.filter fun entry => entry.1 = candidate).map Prod.snd) call
  checkCaps state batch.batchCaps (members.map Prod.snd) call

/-! ### Author calls -/

inductive Decision where
  | resume (jobId : Digest)
  | propose
  | leave
deriving DecidableEq

/-- What a call does about the attempts there are. A completed one is returned, one that was never claimed
is dispatched, and a new one waits for all others and for a free place in its lane. -/
def decide (factory : Factory) (existing : List (JobRecord × AuthoringRequest)) (call : AuthoringCall)
    (frontier : ArtifactRef) : Decision :=
  match existing.find? fun entry => entry.2.call = call ∧ entry.2.frontier = frontier with
  | some (job, _) =>
      if job.spec.implementation = factory.revision ∧ job.state ≠ .completed ∧ job.attempts = [] then
        .resume job.jobId
      else .leave
  | none =>
      if existing.all (fun entry => entry.1.state = .completed) ∧
          (existing.filter fun entry => entry.2.lane = stageLane call).length < 3 then .propose
      else .leave

/-- How far a call that holds the batch lock is. -/
inductive Phase where
  | started
  | proposed (request : AuthoringRequest)
  | checked (request : AuthoringRequest) (at_check : State)
  | queued (jobId : Digest)
  | claimed (jobId : Digest)
  | ready (jobId : Digest)

structure Call where
  factory : Factory
  candidate : ArtifactRef
  call : AuthoringCall
  phase : Phase

/-- What was enqueued, with the registry at the check and right before the enqueue. -/
structure Reservation where
  jobId : Digest
  request : AuthoringRequest
  atCheck : State
  atEnqueue : State

/-- The registry, the call that holds the lock of the batch, and what was done so far. -/
structure System where
  registry : State
  holder : Option Call
  dispatched : List Digest
  reservations : List Reservation

/-- The archived outcome that a recovered execution starts from. -/
inductive Recovered where
  | result
  | error

/-- The provider runs only when no archived outcome is there. -/
def execute (jobId : Digest) (recovered : Option Recovered) (dispatched : List Digest) : List Digest :=
  match recovered with
  | none => dispatched ++ [jobId]
  | some _ => dispatched

/-- The registry event does not enqueue an attempt. -/
def AddsNoAttempt (action : Action) (data : Json.Members) : Prop :=
  action = .enqueue → ∀ spec, JobSpec.codec.validate (member data "spec") = some spec →
    isAuthoring spec = false

section

variable (sha256 : Bytes → Digest) (records : ArtifactRef → Option AuthoringRequest) (batch : AuthoringBatch)

/-- One step. A call stops when it returns, fails or crashes, and what it wrote stays. Reconciliation,
publication and recovery of any attempt are registry events of their own. -/
inductive SystemStep : System → System → Prop
  | start {system : System} (factory : Factory) (candidate : ArtifactRef) (call : AuthoringCall)
      (free : system.holder = none) (member : candidate ∈ batch.candidates) :
      SystemStep system { system with holder := some ⟨factory, candidate, call, .started⟩ }
  | propose {system : System} {held : Call} {frontier : ArtifactRef}
      {existing : List (JobRecord × AuthoringRequest)} (holds : system.holder = some held)
      (phase : held.phase = .started) (listed : jobs records system.registry held.candidate = .ok existing)
      (decided : decide held.factory existing held.call frontier = .propose) :
      SystemStep system { system with
        holder := some { held with
          phase := .proposed ⟨held.candidate, frontier, held.call, stageLane held.call⟩ } }
  | resume {system : System} {held : Call} {frontier : ArtifactRef} {jobId : Digest}
      {existing : List (JobRecord × AuthoringRequest)} (holds : system.holder = some held)
      (phase : held.phase = .started) (listed : jobs records system.registry held.candidate = .ok existing)
      (decided : decide held.factory existing held.call frontier = .resume jobId) :
      SystemStep system { system with holder := some { held with phase := .queued jobId } }
  | check {system : System} {held : Call} {request : AuthoringRequest} (holds : system.holder = some held)
      (phase : held.phase = .proposed request)
      (checked : checkBudget records batch system.registry held.candidate held.call = .ok ()) :
      SystemStep system { system with
        holder := some { held with phase := .checked request system.registry } }
  | enqueue {system : System} {held : Call} {request : AuthoringRequest} {at_check next : State}
      {ref : ArtifactRef} {spec : JobSpec} {data : Json.Members} (holds : system.holder = some held)
      (phase : held.phase = .checked request at_check) (stored : records ref = some request)
      (isSpec : IsSpec held.factory request ref spec)
      (decoded : JobSpec.codec.validate (member data "spec") = some spec)
      (event : State.Step sha256 system.registry data .enqueue next) :
      SystemStep system { system with
        registry := next
        holder := some { held with phase := .queued (State.jobKey sha256 spec) }
        reservations := system.reservations ++
          [⟨State.jobKey sha256 spec, request, at_check, system.registry⟩] }
  | enqueued {system : System} {held : Call} {request : AuthoringRequest} {at_check : State}
      {ref : ArtifactRef} {spec : JobSpec} {job : JobRecord} (holds : system.holder = some held)
      (phase : held.phase = .checked request at_check) (stored : records ref = some request)
      (isSpec : IsSpec held.factory request ref spec)
      (known : system.registry.jobs.get? (State.jobKey sha256 spec) = some job) (same : job.spec = spec) :
      SystemStep system { system with
        holder := some { held with phase := .queued (State.jobKey sha256 spec) } }
  | claim {system : System} {held : Call} {jobId : Digest} {claim : Claim} {data : Json.Members} {next : State}
      (holds : system.holder = some held) (phase : held.phase = .queued jobId)
      (decoded : Claim.codec.validate (member data "claim") = some claim) (own : claim.jobId = jobId)
      (event : State.Step sha256 system.registry data .claim next) :
      SystemStep system { system with
        registry := next, holder := some { held with phase := .claimed jobId } }
  | observe {system : System} {held : Call} {jobId : Digest} {data : Json.Members} {next : State}
      (holds : system.holder = some held) (phase : held.phase = .claimed jobId)
      (event : State.Step sha256 system.registry data .reconcile next) :
      SystemStep system { system with
        registry := next, holder := some { held with phase := .ready jobId } }
  | dispatch {system : System} {held : Call} {jobId : Digest} (holds : system.holder = some held)
      (phase : held.phase = .ready jobId) :
      SystemStep system { system with
        holder := none, dispatched := execute jobId none system.dispatched }
  | stop {system : System} : SystemStep system { system with holder := none }
  | settle {system : System} {action : Action} {data : Json.Members} {next : State}
      (quiet : AddsNoAttempt action data)
      (event : State.Step sha256 system.registry data action next) :
      SystemStep system { system with registry := next }
  | recover {system : System} (jobId : Digest) (outcome : Recovered) :
      SystemStep system { system with dispatched := execute jobId (some outcome) system.dispatched }

inductive Reaches (system : System) : System → Prop
  | refl : Reaches system system
  | step {middle next : System} (earlier : Reaches system middle)
      (step : SystemStep sha256 records batch middle next) : Reaches system next

end

end Authoring

end FeatureRl
