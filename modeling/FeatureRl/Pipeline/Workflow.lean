import FeatureRl.Contracts.Values
import FeatureRl.Lib.Dict
import FeatureRl.Lib.Sorting
import Mathlib.Data.String.Basic

/-!
The feature workflow: one job whose phases are intended, executed, frozen and selected by
separate durable writes, under calls that may stop between any two of them. Bodies, content
addressing and the lineage checks of phases are left open.
-/

namespace FeatureRl

namespace Workflow

/-! ### Phases -/

inductive Key where
  | intake | source | preparation | referenceCapture | construction
  | author (call : Digest)
deriving DecidableEq

namespace Key

def name : Key → String
  | intake => "intake"
  | source => "source"
  | preparation => "preparation"
  | referenceCapture => "reference-capture"
  | construction => "construction"
  | author call => "author-" ++ call.val

/-- A phase whose work is kept by a job of its own. -/
def isChild : Key → Bool
  | source | author _ | construction => true
  | intake | preparation | referenceCapture => false

end Key

inductive StepOutput where
  | intake (selection : Bytes)
  | preparation (selection : Bytes)
  | result (result : OperationResult)
deriving DecidableEq

structure FeatureStep where
  request : ArtifactRef
  key : Key
  inputs : ArtifactRef
  output : StepOutput
  costs : List CostRecord
deriving DecidableEq

structure FeatureOutcome where
  request : ArtifactRef
  selected : OperationResult
  steps : List ArtifactRef
deriving DecidableEq

/-- Where a derivation is. -/
inductive Stage where
  | intake | source | preparation | referenceCapture | construction
  | author (attempt : Nat)
deriving DecidableEq

inductive Next where
  | stage (stage : Stage)
  | finish (result : OperationResult)
  | stop
deriving DecidableEq

/-- The result of a phase that must succeed before the derivation goes on. -/
def onSuccess (result : OperationResult) (later : Stage) : Next :=
  if result.disposition = .success then .stage later else .finish result

/-- Another attempt follows a rejected one, up to three, unless the provider was unavailable. -/
def afterAuthor (attempt : Nat) (result : OperationResult) (unavailable : Bool) : Next :=
  if result.disposition = .rejected ∧ result.artifacts ≠ [] ∧ unavailable = false ∧ attempt < 2 then
    .stage (.author (attempt + 1))
  else onSuccess result .referenceCapture

def after (stage : Stage) (output : StepOutput) (unavailable : Bool) : Next :=
  match stage, output with
  | .intake, _ => .stage .source
  | .source, .result result => onSuccess result .preparation
  | .preparation, _ => .stage (.author 0)
  | .author attempt, .result result => afterAuthor attempt result unavailable
  | .referenceCapture, .result result => onSuccess result .construction
  | .construction, .result result => .finish result
  | _, _ => .stop

/-- The key of a stage; an attempt is named by the digest of its call. -/
def keyOf (stage : Stage) (call : Digest) : Key :=
  match stage with
  | .intake => .intake
  | .source => .source
  | .preparation => .preparation
  | .referenceCapture => .referenceCapture
  | .construction => .construction
  | .author _ => .author call

/-! ### Accounting -/

/-- The stream of a snapshot. -/
inductive Source where
  | phase (key : Key)
  | completion
deriving DecidableEq

def Source.name : Source → String
  | phase key => "m6-feature-" ++ key.name
  | completion => "m6-feature-completion"

/-- The latest snapshot of a stream. -/
structure Snapshot where
  revision : Nat
  receipts : List ArtifactRef
  costs : List CostRecord

def stepKind : String := "m6-feature-step"

def outcomeKind : String := "m6-feature-outcome"

/-- The steps that a snapshot selects. -/
def Snapshot.selected (snapshot : Snapshot) : List ArtifactRef :=
  snapshot.receipts.filter fun ref => ref.kind.val = stepKind

def Snapshot.outcomes (snapshot : Snapshot) : List ArtifactRef :=
  snapshot.receipts.filter fun ref => ref.kind.val = outcomeKind

abbrev Ledger := Dict Source Snapshot

/-- What surrounds the workflow: the request, the content addresses of steps and outcomes, the costs of
an intent, the merging of costs and the checks of a step against its inputs. -/
structure Setting where
  request : ArtifactRef
  stepRef : FeatureStep → ArtifactRef
  outcomeRef : FeatureOutcome → ArtifactRef
  observationId : Source × Snapshot → Digest
  intentCosts : Key → List CostRecord
  overhead : List CostRecord
  phaseCosts : List CostRecord → List CostRecord → List CostRecord
  lineage : FeatureStep → Bool
  stepRef_kind : ∀ step, (stepRef step).kind.val = stepKind
  outcomeRef_kind : ∀ outcome, (outcomeRef outcome).kind.val = outcomeKind
  request_kind : request.kind.val = "m6-feature-request"

variable (setting : Setting)

/-- Add references that are not listed yet, in order. -/
def addReceipts (receipts refs : List ArtifactRef) : List ArtifactRef :=
  refs.foldl (fun known ref => if ref ∈ known then known else known ++ [ref]) receipts

/-- The next snapshot of a stream. -/
def Snapshot.extend (previous : Option Snapshot) (refs : List ArtifactRef) (costs : List CostRecord) : Snapshot :=
  match previous with
  | none => ⟨1, addReceipts [] refs, setting.phaseCosts [] costs⟩
  | some old => ⟨old.revision + 1, addReceipts old.receipts refs, setting.phaseCosts old.costs costs⟩

def observe (ledger : Ledger) (source : Source) (refs : List ArtifactRef) (costs : List CostRecord) : Ledger :=
  ledger.set source (Snapshot.extend setting (ledger.get? source) refs costs)

/-- The snapshots in the order of their identities. -/
def rows (ledger : Ledger) : List (Source × Snapshot) :=
  Sorting.sortBy (fun row => (setting.observationId row).val) ledger.entries

def selectedSteps (ledger : Ledger) : List ArtifactRef := (rows setting ledger).flatMap fun row => row.2.selected

/-! ### Publication -/

/-- Store a record under its content address. Another record there is a corruption or a collision. -/
def put {α : Type} [DecidableEq α] (objects : Dict ArtifactRef α) (ref : ArtifactRef) (value : α) :
    Option (Dict ArtifactRef α) :=
  match objects.get? ref with
  | none => some (objects.set ref value)
  | some old => if old = value then some objects else none

/-- The step belongs to this request and its inputs are a selected intent. -/
def checkStep (ledger : Ledger) (step : FeatureStep) : Bool :=
  step.request = setting.request &&
    (match ledger.get? (.phase step.key) with
      | none => false
      | some snapshot => step.inputs ∈ snapshot.receipts) &&
    setting.lineage step

def isTerminal (outcome : FeatureOutcome) (step : FeatureStep) : Bool :=
  step.output = .result outcome.selected ∧
    (step.key = .construction ∨ outcome.selected.disposition ≠ .success)

/-- What an outcome must satisfy before it is published. -/
structure Publishable (ledger : Ledger) (steps : Dict ArtifactRef FeatureStep) (outcome : FeatureOutcome) :
    Prop where
  request : outcome.request = setting.request
  listed : ∀ ref, ref ∈ outcome.steps ↔ ref ∈ selectedSteps setting ledger
  terminal : ∃ ref ∈ outcome.steps, ∃ step, steps.get? ref = some step ∧ isTerminal outcome step = true
  resolved : ∀ source snapshot, ledger.get? source = some snapshot → source ≠ .completion →
    snapshot.selected.length = 1
  checked : ∀ ref ∈ outcome.steps, ∃ step, steps.get? ref = some step ∧
    checkStep setting ledger step = true

/-- The artifacts and the costs of a completed job. -/
structure Completion where
  artifacts : List ArtifactRef
  costs : List CostRecord
  disposition : Disposition
  reason : Text

def completionOf (ledger : Ledger) (outcome : FeatureOutcome) : Completion where
  artifacts := outcome.selected.artifacts ++ [setting.outcomeRef outcome]
  costs := (rows setting ledger).flatMap fun row => row.2.costs
  disposition := outcome.selected.disposition
  reason := outcome.selected.reason

/-! ### Calls -/

/-- How far a call is. A publication without a stage is a retried one. -/
inductive Progress where
  | deriving (stage : Stage)
  | intended (stage : Stage) (key : Key) (inputs : ArtifactRef)
  | ran (stage : Stage) (key : Key) (inputs : ArtifactRef)
  | publishing (stage : Option Stage) (step : FeatureStep)
  | recorded (stage : Option Stage) (step : FeatureStep)
  | stored (stage : Option Stage) (step : FeatureStep)
  | finishing (result : OperationResult)
  | freezing (outcome : FeatureOutcome)
  | frozen (outcome : FeatureOutcome)
  | completing (outcome : FeatureOutcome)

/-- The registry's view of the job, the stored records, the call under way, the bodies that were run, and
the outputs that calls went on with. -/
structure System where
  ledger : Ledger
  steps : Dict ArtifactRef FeatureStep
  outcomes : Dict ArtifactRef FeatureOutcome
  call : Option Progress
  executed : List Key
  used : List (Key × StepOutput)
  completed : Option (FeatureOutcome × Completion)

/-- A retried publication is followed by a recovery of the job. -/
def continueWith (stage : Option Stage) (output : StepOutput) (unavailable : Bool) : Option Progress :=
  match stage with
  | none => some (.deriving .intake)
  | some stage =>
      match after stage output unavailable with
      | .stage later => some (.deriving later)
      | .finish result => some (.finishing result)
      | .stop => none

/-- One step. Calls follow each other; each may stop anywhere, and what it wrote stays. -/
inductive SystemStep : System → System → Prop
  | call {system : System} (idle : system.call = none) (open_job : system.completed = none) :
      SystemStep system { system with call := some (.deriving .intake) }
  | reuse {system : System} {stage : Stage} {call : Digest} {inputs ref : ArtifactRef} {snapshot : Snapshot}
      {step : FeatureStep} {unavailable : Bool} (here : system.call = some (.deriving stage))
      (open_job : system.completed = none)
      (known : system.ledger.get? (.phase (keyOf stage call)) = some snapshot)
      (same : inputs ∈ snapshot.receipts) (selected : snapshot.selected = [ref])
      (read : system.steps.get? ref = some step) (checked : checkStep setting system.ledger step = true) :
      SystemStep system { system with
        call := continueWith (some stage) step.output unavailable
        used := system.used ++ [(keyOf stage call, step.output)] }
  | intend {system : System} {stage : Stage} {call : Digest} {inputs : ArtifactRef}
      (here : system.call = some (.deriving stage)) (open_job : system.completed = none)
      (new : system.ledger.get? (.phase (keyOf stage call)) = none)
      (kind : inputs.kind.val = "m6-feature-input") :
      SystemStep system { system with
        ledger := observe setting system.ledger (.phase (keyOf stage call)) [setting.request, inputs]
          (setting.intentCosts (keyOf stage call))
        call := some (.intended stage (keyOf stage call) inputs) }
  | rerun {system : System} {stage : Stage} {call : Digest} {inputs : ArtifactRef} {snapshot : Snapshot}
      (here : system.call = some (.deriving stage)) (open_job : system.completed = none)
      (known : system.ledger.get? (.phase (keyOf stage call)) = some snapshot)
      (same : inputs ∈ snapshot.receipts) (unselected : snapshot.selected = [])
      (child : (keyOf stage call).isChild = true) :
      SystemStep system { system with call := some (.intended stage (keyOf stage call) inputs) }
  | execute {system : System} {stage : Stage} {key : Key} {inputs : ArtifactRef}
      (here : system.call = some (.intended stage key inputs)) :
      SystemStep system { system with
        call := some (.ran stage key inputs), executed := system.executed ++ [key] }
  | freeze {system : System} {stage : Stage} {key : Key} {inputs : ArtifactRef} (output : StepOutput)
      (costs : List CostRecord) (here : system.call = some (.ran stage key inputs)) :
      SystemStep system { system with
        call := some (.publishing (some stage) ⟨setting.request, key, inputs, output, costs⟩) }
  | retry {system : System} (step : FeatureStep) (idle : system.call = none) :
      SystemStep system { system with call := some (.publishing none step) }
  | republish {system : System} {stage : Option Stage} {step : FeatureStep} {snapshot : Snapshot}
      {ref : ArtifactRef} {unavailable : Bool} (here : system.call = some (.publishing stage step))
      (checked : checkStep setting system.ledger step = true)
      (known : system.ledger.get? (.phase step.key) = some snapshot)
      (selected : snapshot.selected = [ref]) (same : system.steps.get? ref = some step) :
      SystemStep system { system with
        call := continueWith stage step.output unavailable
        used := system.used ++ [(step.key, step.output)] }
  | record {system : System} {stage : Option Stage} {step : FeatureStep} {snapshot : Snapshot}
      (here : system.call = some (.publishing stage step))
      (checked : checkStep setting system.ledger step = true)
      (known : system.ledger.get? (.phase step.key) = some snapshot) (unselected : snapshot.selected = [])
      (costs : 1 < snapshot.revision → snapshot.costs = setting.phaseCosts snapshot.costs step.costs) :
      SystemStep system { system with
        ledger := observe setting system.ledger (.phase step.key) [step.inputs] step.costs
        call := some (.recorded stage step) }
  | store {system : System} {stage : Option Stage} {step : FeatureStep} {steps : Dict ArtifactRef FeatureStep}
      (here : system.call = some (.recorded stage step))
      (written : put system.steps (setting.stepRef step) step = some steps) :
      SystemStep system { system with steps := steps, call := some (.stored stage step) }
  | select {system : System} {stage : Option Stage} {step : FeatureStep} {unavailable : Bool}
      (here : system.call = some (.stored stage step)) :
      SystemStep system { system with
        ledger := observe setting system.ledger (.phase step.key) [setting.stepRef step] step.costs
        call := continueWith stage step.output unavailable
        used := system.used ++ [(step.key, step.output)] }
  | finish {system : System} {result : OperationResult} (here : system.call = some (.finishing result))
      (new : system.ledger.get? .completion = none) :
      SystemStep system { system with
        call := some (.freezing ⟨setting.request, result, (selectedSteps setting system.ledger).eraseDups⟩) }
  | refinish {system : System} {result : OperationResult} {snapshot : Snapshot} {ref : ArtifactRef}
      {outcome : FeatureOutcome} (here : system.call = some (.finishing result))
      (known : system.ledger.get? .completion = some snapshot) (frozen : snapshot.outcomes = [ref])
      (read : system.outcomes.get? ref = some outcome) :
      SystemStep system { system with call := some (.freezing outcome) }
  | retryOutcome {system : System} (outcome : FeatureOutcome) (idle : system.call = none) :
      SystemStep system { system with call := some (.freezing outcome) }
  | publish {system : System} {outcome : FeatureOutcome} {outcomes : Dict ArtifactRef FeatureOutcome}
      (here : system.call = some (.freezing outcome)) (open_job : system.completed = none)
      (publishable : Publishable setting system.ledger system.steps outcome)
      (written : put system.outcomes (setting.outcomeRef outcome) outcome = some outcomes) :
      SystemStep system { system with outcomes := outcomes, call := some (.frozen outcome) }
  | announce {system : System} {outcome : FeatureOutcome} (here : system.call = some (.frozen outcome))
      (new : system.ledger.get? .completion = none) :
      SystemStep system { system with
        ledger := observe setting system.ledger .completion [setting.outcomeRef outcome] setting.overhead
        call := some (.completing outcome) }
  | announced {system : System} {outcome : FeatureOutcome} {snapshot : Snapshot}
      (here : system.call = some (.frozen outcome)) (known : system.ledger.get? .completion = some snapshot)
      (frozen : snapshot.outcomes = [setting.outcomeRef outcome]) :
      SystemStep system { system with call := some (.completing outcome) }
  | complete {system : System} {outcome : FeatureOutcome} (here : system.call = some (.completing outcome)) :
      SystemStep system { system with
        call := none, completed := some (outcome, completionOf setting system.ledger outcome) }
  | stop {system : System} : SystemStep system { system with call := none }

inductive Reaches (system : System) : System → Prop
  | refl : Reaches system system
  | step {middle next : System} (earlier : Reaches system middle) (step : SystemStep setting middle next) :
      Reaches system next

/-- The job before its first call. -/
def start : System := ⟨.empty, .empty, .empty, none, [], [], none⟩

end Workflow

end FeatureRl
