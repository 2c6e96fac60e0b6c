import FeatureRl.Generation.Events
import FeatureRl.Lib.Dict

/-!
One Codex call: the attempt is archived, the process runs once, its outcome is judged, and the
payloads of the call are published to an archive that may fail anywhere.
-/

namespace FeatureRl

namespace Generation

/-! ### Requests -/

inductive GenerationStage where
  | discovery | initialAuthoring
deriving DecidableEq

structure GenerationLimits where
  stdinBytes : Nat
  outputBytes : Nat
  inputTokens : Nat
  outputTokens : Nat
  document : Json

/-- A request with its document and those of its contexts. -/
structure GenerationRequest where
  requestId : String
  responseId : String
  promptId : String
  stage : GenerationStage
  contextIds : List String
  allowedRequirementIds : List String
  limits : GenerationLimits
  document : Json
  contexts : List Json

def GenerationRequest.visibility (request : GenerationRequest) : Visibility :=
  match request.stage with
  | .discovery | .initialAuthoring => .authoring

structure Attempt where
  attemptId : String
  recordedAt : String
  document : Json

/-! ### The process -/

structure FootprintSample where
  wiredBytes : Option Nat
  residentBytes : Nat
  physicalFootprintBytes : Option Nat
  lifetimeMaxPhysicalFootprintBytes : Option Nat

structure ProcessOutcome where
  termination : String
  exitStatus : Option Int
  wallSeconds : NonnegativeFloat
  cpuSeconds : NonnegativeFloat
  stdout : Bytes
  stderr : Bytes
  memorySamples : Nat
  maxSampledPhysicalFootprintBytes : Option Nat
  maxReportedLifetimePhysicalFootprintBytes : Option Nat
  breachSample : Option FootprintSample
  processGroupCleanupVerified : Bool
  monitoringFailures : Nat
  monitorErrorType : Option String
  monitorError : Option PyText
  cleanupError : Option PyText
  cpuLimitEnforcement : String
  outputLimitEnforcement : String
  memoryLimitEnforcement : String
  maxSampledResidentBytes : Option Nat

/-- The response file after the run: its size and its text as read. -/
structure ResponseFile where
  size : Nat
  text : Except Raised PyText

/-- What a call meets outside the provider. -/
structure Host (Content : Type) where
  prompt : Bytes
  transportSchema : Except Raised Json
  verify : Except Raised String
  run : Except Raised ProcessOutcome
  responseFile : Option ResponseFile
  decodeStderr : Bytes → PyText
  parseEnvelope : PyText → Except Raised Content
  base64 : Bytes → String

variable (python : Python) {Content σ : Type} (host : Host Content) (request : GenerationRequest)

/-- The error of the guarded block. -/
inductive Caught where
  | inputLimit
  | raised (error : Raised)

namespace Caught

def name : Caught → String
  | inputLimit => "GenerationInputLimitError"
  | raised error => error.name

def text : Caught → PyText
  | inputLimit => PyText.ofString "request, schema, or prompt exceeds the configured input byte cap"
  | raised error => error.text

end Caught

/-! ### The verdict on a process -/

def exitFailure (process : ProcessOutcome) : Raised :=
  let diagnostic := PyText.last 4096 (host.decodeStderr process.stderr)
  let unavailable (diagnostic : PyText) := Raised.codexUnavailable (PyText.ofString
    ("Codex/Astra exited with status " ++ (process.exitStatus.map toString).getD "None" ++ ": ") ++ diagnostic)
  match parseEvents python process.stdout with
  | .ok _ => unavailable diagnostic
  | .error raised =>
      if raised.kind = .other then raised
      else unavailable (diagnostic ++ PyText.ofString "\n" ++ PyText.last 4096 raised.text)

def readMessage (process : ProcessOutcome) : Except Raised (PyText × GenerationUsage) :=
  match parseEvents python process.stdout with
  | .ok message => .ok message
  | .error raised =>
      if raised.kind = .value then
        .error (Raised.codexUnavailable (PyText.ofString "Codex event protocol is invalid: " ++ raised.text))
      else .error raised

def checkResponse (message : PyText) : Except Raised Unit :=
  let missing := Raised.valueError
    (PyText.ofString "Codex final response file is missing or exceeds the output byte cap")
  match host.responseFile with
  | none => .error missing
  | some file =>
      if request.limits.outputBytes < file.size then .error missing
      else do
        if (← file.text).strip ≠ message.strip then
          throw (Raised.valueError (PyText.ofString "Codex final response file differs from its completed message"))

def acceptMessage (message : PyText) (usage : GenerationUsage) : Except Raised Content := do
  checkResponse host request message
  if request.limits.inputTokens < usage.inputTokens || request.limits.outputTokens < usage.outputTokens then
    throw (Raised.valueError
      (PyText.ofString "Codex reported token usage exceeds the authoring acceptance limits"))
  host.parseEnvelope message

structure Verdict (Content : Type) where
  usage : Option GenerationUsage
  outputText : Option PyText
  content : Except Caught Content

def refuse (usage : Option GenerationUsage) (raised : Raised) : Verdict Content :=
  ⟨usage, none, .error (.raised raised)⟩

def judge (process : ProcessOutcome) : Verdict Content :=
  match observedUsage python process.stdout with
  | .error raised => refuse none raised
  | .ok observed =>
      if process.termination ≠ "process_exit" then
        refuse observed (Raised.valueError (PyText.ofString ("Codex terminated by " ++ process.termination)))
      else if process.exitStatus ≠ some 0 then refuse observed (exitFailure python host process)
      else if process.monitoringFailures ≠ 0 || !process.processGroupCleanupVerified then
        refuse observed (Raised.valueError (PyText.ofString "Codex process monitoring or cleanup failed"))
      else
        match readMessage python process with
        | .error raised => refuse observed raised
        | .ok (message, usage) =>
            ⟨some usage, some message, (acceptMessage host request message usage).mapError .raised⟩

/-- The values that the guarded block leaves behind. -/
structure Execution (Content : Type) where
  process : Option ProcessOutcome
  transportSchema : Option Json
  version : Option String
  verdict : Verdict Content

def unstarted (caught : Caught) : Verdict Content := ⟨none, none, .error caught⟩

def execute : Execution Content :=
  match host.transportSchema with
  | .error raised => ⟨none, none, none, unstarted (.raised raised)⟩
  | .ok schema =>
      if request.limits.stdinBytes <
          max (max host.prompt.length schema.canonical.length) request.document.canonical.length then
        ⟨none, some schema, none, unstarted .inputLimit⟩
      else
        match host.verify with
        | .error raised => ⟨none, some schema, none, unstarted (.raised raised)⟩
        | .ok version =>
            match host.run with
            | .error raised => ⟨none, some schema, some version, unstarted (.raised raised)⟩
            | .ok process => ⟨some process, some schema, some version, judge python host request process⟩

/-! ### Costs -/

def unknownCost : CostRecord where
  category := .authoring
  wallSeconds := none
  cpuSeconds := none
  gpuSeconds := none
  inputTokens := none
  outputTokens := none
  humanMinutes := none
  usd := none
  measurement := .unknown
  note := ⟨"Execution did not start; execution and monetary costs are unknown.", by decide +kernel⟩
  consistent := by decide

def measuredCost (process : ProcessOutcome) (usage : Option GenerationUsage) : CostRecord where
  category := .authoring
  wallSeconds := some process.wallSeconds
  cpuSeconds := some process.cpuSeconds
  gpuSeconds := none
  inputTokens := usage.map GenerationUsage.inputTokens
  outputTokens := usage.map GenerationUsage.outputTokens
  humanMinutes := none
  usd := none
  measurement := .incomplete
  note := ⟨"Wall/CPU describe the local Codex process; token counts are Codex-reported. " ++
    "Remote compute and subscription/USD costs are unknown. Token ceilings are checked " ++
    "after completion; Codex exec does not expose hard per-call token limits.", by decide +kernel⟩
  consistent := by simp [measurementConsistency]

def costOf (execution : Execution Content) : CostRecord :=
  match execution.process with
  | none => unknownCost
  | some process => measuredCost process execution.verdict.usage

/-! ### Documents -/

def nullable {α : Type} (document : α → Json) (value : Option α) : Json := (value.map document).getD .null

/-- A string of a document, or none where UTF-8 has no bytes for it. -/
def encodeText : Option PyText → Option Json
  | none => some .null
  | some text => text.string?.map .str

def count (value : Nat) : Json := .int value

def FootprintSample.document (sample : FootprintSample) : Json :=
  .obj [("wired_bytes", nullable count sample.wiredBytes), ("resident_bytes", count sample.residentBytes),
    ("physical_footprint_bytes", nullable count sample.physicalFootprintBytes),
    ("lifetime_max_physical_footprint_bytes", nullable count sample.lifetimeMaxPhysicalFootprintBytes)]

def ProcessOutcome.boundary (process : ProcessOutcome) : Option Json := do
  let monitorError ← encodeText process.monitorError
  let cleanupError ← encodeText process.cleanupError
  return .obj [("memory_samples", count process.memorySamples),
    ("max_sampled_physical_footprint_bytes", nullable count process.maxSampledPhysicalFootprintBytes),
    ("max_reported_lifetime_physical_footprint_bytes",
      nullable count process.maxReportedLifetimePhysicalFootprintBytes),
    ("breach_sample", nullable FootprintSample.document process.breachSample),
    ("process_group_cleanup_verified", .bool process.processGroupCleanupVerified),
    ("monitoring_failures", count process.monitoringFailures),
    ("monitor_error_type", nullable .str process.monitorErrorType), ("monitor_error", monitorError),
    ("cleanup_error", cleanupError), ("cpu_limit_enforcement", .str process.cpuLimitEnforcement),
    ("output_limit_enforcement", .str process.outputLimitEnforcement),
    ("memory_limit_enforcement", .str process.memoryLimitEnforcement),
    ("max_sampled_resident_bytes", nullable count process.maxSampledResidentBytes)]

def boundaryOf : Option ProcessOutcome → Option Json
  | none => some .null
  | some process => process.boundary

def responseDocument (execution : Execution Content) : Option Json := do
  let outputText ← encodeText execution.verdict.outputText
  let boundary ← boundaryOf execution.process
  let stream (read : ProcessOutcome → Bytes) : Json :=
    .str ((execution.process.map fun process => host.base64 (read process)).getD "")
  return .obj [("output_text", outputText), ("stdout_base64", stream ProcessOutcome.stdout),
    ("stderr_base64", stream ProcessOutcome.stderr),
    ("termination", nullable .str (execution.process.map ProcessOutcome.termination)),
    ("exit_status", nullable .int (execution.process.bind ProcessOutcome.exitStatus)),
    ("transport_schema", execution.transportSchema.getD .null), ("process_boundary", boundary)]

/-! ### The archive -/

structure Payload where
  name : String
  data : Bytes
  visibility : Visibility

def Payload.kind (payload : Payload) : String := "generation-" ++ payload.name

structure ArchiveFailure where
  name : String
  text : String

/-- A writer of payloads; its own state decides which writes fail. -/
abbrev Archive (σ : Type) := Payload → σ → Except ArchiveFailure ArtifactRef × σ

def archiveKinds : List String :=
  ["attempt", "request", "response", "retrieval", "schema", "options", "provenance", "usage", "cost", "events",
    "status"]

abbrev Refs := Dict String ArtifactRef

/-- Write what has no reference yet, up to the first failure. -/
def publish (archive : Archive σ) : List Payload → Refs → σ → (Option ArchiveFailure × Refs) × σ
  | [], refs, state => ((none, refs), state)
  | payload :: rest, refs, state =>
      if (refs.get? payload.name).isSome then publish archive rest refs state
      else
        match archive payload state with
        | (.error failure, state) => ((some failure, refs), state)
        | (.ok ref, state) => publish archive rest (refs.set payload.name ref) state

structure CallRecord where
  attempt : Attempt
  requestId : String
  responseId : String
  success : Bool
  generationSucceeded : Bool
  publicationComplete : Bool
  errorCode : Option String
  archives : Refs

/-- Retained payloads that can be published without another run. -/
structure Recovery (Content : Type) where
  attempt : Attempt
  requestId : String
  responseId : String
  payloads : List Payload
  publishedRefs : Refs
  visibility : Visibility
  generationSucceeded : Bool
  underlyingErrorCode : Option String
  underlyingError : Option PyText
  publicationError : String
  cost : CostRecord
  response : Option Json
  usageObservation : Option GenerationUsage
  content : Option Content
  usage : Option GenerationUsage

structure ProviderError (Content : Type) where
  message : PyText
  record : CallRecord
  cost : CostRecord
  response : Option Json
  usageObservation : Option GenerationUsage
  recovery : Option (Recovery Content)

namespace Recovery

variable (recovery : Recovery Content)

def statusDocument (recovered : Bool) (refs : Refs) : Option Json := do
  let error ← encodeText recovery.underlyingError
  return .obj [("attempt_id", .str recovery.attempt.attemptId), ("recorded_at", .str recovery.attempt.recordedAt),
    ("request_id", .str recovery.requestId), ("response_id", .str recovery.responseId),
    ("success", .bool recovery.generationSucceeded), ("generation_succeeded", .bool recovery.generationSucceeded),
    ("publication_complete", .bool true), ("publication_recovered", .bool recovered),
    ("publication_failure", .str recovery.publicationError),
    ("error_type", nullable .str recovery.underlyingErrorCode), ("error", error),
    ("archive_refs", .obj (refs.entries.map fun entry => (entry.1, ArtifactRef.codec.document entry.2)))]

/-- The status follows the payloads, and names them. -/
def publishStatus (archive : Archive σ) (recovered : Bool) (refs : Refs) (state : σ) :
    (Option ArchiveFailure × Refs) × σ :=
  match recovery.statusDocument recovered refs with
  | none =>
      ((some ⟨"UnicodeEncodeError", python.surrogatesNotAllowed (recovery.underlyingError.getD [])⟩, refs), state)
  | some document =>
      match archive ⟨"status", document.canonical, recovery.visibility⟩ state with
      | (.error failure, state) => ((some failure, refs), state)
      | (.ok ref, state) => ((none, refs.set "status" ref), state)

def record (complete : Bool) (refs : Refs) : CallRecord where
  attempt := recovery.attempt
  requestId := recovery.requestId
  responseId := recovery.responseId
  success := complete && recovery.generationSucceeded
  generationSucceeded := recovery.generationSucceeded
  publicationComplete := complete
  errorCode := if complete then recovery.underlyingErrorCode else some "ArchivePublicationError"
  archives := refs

def pending (failure : ArchiveFailure) (refs : Refs) : ProviderError Content where
  message := PyText.ofString ("archive publication replay failed: " ++ failure.text)
  record := recovery.record false refs
  cost := recovery.cost
  response := recovery.response
  usageObservation := recovery.usageObservation
  recovery := some { recovery with
    publishedRefs := refs, publicationError := failure.name ++ ": " ++ failure.text }

def replay (archive : Archive σ) (recovered : Bool) (state : σ) :
    Except (ProviderError Content) CallRecord × σ :=
  match publish archive recovery.payloads recovery.publishedRefs state with
  | ((some failure, refs), state) => (.error (recovery.pending failure refs), state)
  | ((none, refs), state) =>
      match recovery.publishStatus python archive recovered refs state with
      | ((some failure, refs), state) => (.error (recovery.pending failure refs), state)
      | ((none, refs), state) => (.ok (recovery.record true refs), state)

end Recovery

/-! ### A call -/

structure GenerationResult (Content : Type) where
  content : Content
  usage : Option GenerationUsage
  cost : CostRecord
  record : CallRecord

inductive Outcome (Content : Type) where
  | result (result : GenerationResult Content)
  | raised (error : ProviderError Content)
  | escaped (failure : ArchiveFailure)

structure Options where
  model : String
  reasoningEffort : String
  schema : Json

def usageDocument (verdict : Verdict Content) : Json :=
  let observed := nullable GenerationUsage.document verdict.usage
  .obj [("accepted_response_usage", .bool verdict.content.toBool),
    ("accepted", if verdict.content.toBool then observed else .null), ("observed", observed)]

/-- The payloads after the attempt, in the order of their kinds. -/
def payloadsOf (options : Options) (execution : Execution Content) (response : Json) : List Payload :=
  let payload (name : String) (document : Json) : Payload := ⟨name, document.canonical, request.visibility⟩
  [payload "request" request.document,
    payload "response" response,
    payload "retrieval" (.obj [("contexts", .arr request.contexts)]),
    payload "schema" options.schema,
    payload "options" (.obj [("model", .str options.model), ("reasoning_effort", .str options.reasoningEffort),
      ("limits", request.limits.document)]),
    payload "provenance" (.obj [("codex_version", nullable .str execution.version),
      ("authentication", .str "chatgpt"), ("expected_source_ids", .arr (request.contextIds.map .str)),
      ("allowed_requirement_ids", .arr (request.allowedRequirementIds.map .str))]),
    payload "usage" (usageDocument execution.verdict),
    payload "cost" (CostRecord.codec.document (costOf execution)),
    ⟨"events", (execution.process.map ProcessOutcome.stdout).getD [], request.visibility⟩]

def attemptPayload (attempt : Attempt) : Payload := ⟨"attempt", attempt.document.canonical, request.visibility⟩

def costPayload (cost : CostRecord) : Payload :=
  ⟨"cost", (CostRecord.codec.document cost).canonical, request.visibility⟩

/-- The response is archived unless the request itself was too long. -/
def retained (options : Options) (attempt : Attempt) (execution : Execution Content) :
    Option (List Payload × Option Json) :=
  match execution.verdict.content with
  | .error .inputLimit => some ([attemptPayload request attempt, costPayload request (costOf execution)], none)
  | _ => (responseDocument host execution).map fun response =>
      (attemptPayload request attempt :: payloadsOf request options execution response, some response)

def caught? (verdict : Verdict Content) : Option Caught :=
  match verdict.content with
  | .ok _ => none
  | .error caught => some caught

def recoveryOf (attempt : Attempt) (refs : Refs) (execution : Execution Content)
    (kept : List Payload × Option Json) : Recovery Content where
  attempt := attempt
  requestId := request.requestId
  responseId := request.responseId
  payloads := kept.1
  publishedRefs := refs
  visibility := request.visibility
  generationSucceeded := execution.verdict.content.toBool
  underlyingErrorCode := (caught? execution.verdict).map Caught.name
  underlyingError := (caught? execution.verdict).map Caught.text
  publicationError := ""
  cost := costOf execution
  response := kept.2
  usageObservation := execution.verdict.usage
  content := execution.verdict.content.toOption
  usage := execution.verdict.usage

/-- The attempt could not be archived, and nothing ran. -/
def unregistered (attempt : Attempt) (failure : ArchiveFailure) : ProviderError Content where
  message := PyText.ofString "attempt registration failed before execution"
  record := ⟨attempt, request.requestId, request.responseId, false, false, false, some "ArchivePublicationError",
    .empty⟩
  cost := unknownCost
  response := none
  usageObservation := none
  recovery := some {
    attempt := attempt
    requestId := request.requestId
    responseId := request.responseId
    payloads := [attemptPayload request attempt, costPayload request unknownCost]
    publishedRefs := .empty
    visibility := request.visibility
    generationSucceeded := false
    underlyingErrorCode := some "ArchivePublicationError"
    underlyingError := some (PyText.ofString "attempt registration failed before execution")
    publicationError := failure.text
    cost := unknownCost
    response := none
    usageObservation := none
    content := none
    usage := none }

/-- A call with the process that it ran, if any. -/
structure CallOutcome (Content : Type) where
  outcome : Outcome Content
  process : Option ProcessOutcome

def conclude (archive : Archive σ) (execution : Execution Content) (recovery : Recovery Content) (state : σ) :
    Outcome Content × σ :=
  match recovery.replay python archive false state with
  | (.error error, state) => (.raised error, state)
  | (.ok record, state) =>
      match execution.verdict.content with
      | .error caught =>
          (.raised ⟨caught.text, record, recovery.cost, recovery.response, recovery.usageObservation, none⟩, state)
      | .ok content => (.result ⟨content, recovery.usage, recovery.cost, record⟩, state)

def generate (archive : Archive σ) (options : Options) (attempt : Attempt) (state : σ) :
    CallOutcome Content × σ :=
  match archive (attemptPayload request attempt) state with
  | (.error failure, state) => (⟨.raised (unregistered request attempt failure), none⟩, state)
  | (.ok ref, state) =>
      let execution := execute python host request
      match retained host request options attempt execution with
      | none =>
          let text := execution.verdict.outputText.getD []
          (⟨.escaped ⟨"UnicodeEncodeError", python.surrogatesNotAllowed text⟩, execution.process⟩, state)
      | some kept =>
          let refs := Dict.empty.set "attempt" ref
          let (outcome, state) :=
            conclude python archive execution (recoveryOf request attempt refs execution kept) state
          (⟨outcome, execution.process⟩, state)

end Generation

end FeatureRl
