import FeatureRl.Contracts.Samples
import FeatureRl.Generation.Provider
import FeatureRl.Registry.Jobs

/-!
The end of an authoring attempt whose contract was refused: its journal, its receipt and the
completion of its job, in the first run and in every recovery.
-/

namespace FeatureRl

namespace Settlement

open Generation

/-! ### Rejections -/

/-- What `provider.generate` or the archive of an earlier call hands to the contract service. -/
inductive ProviderOutcome (Content : Type) where
  | result (content : Content) (record : CallRecord) (cost : CostRecord)
  | error (text : PyText) (record : CallRecord) (cost : CostRecord) (pending : Bool)

/-- A refused attempt as its journal and its receipt name it. -/
structure Rejection where
  errorType : String
  error : PyText
  record : CallRecord
  cost : CostRecord

inductive Verdict where
  | exhausted (rejection : Rejection)
  | pending
  | other

/-- The refusals of the finalizer that the service journals; other exceptions pass through. -/
structure Finalizer (Content : Type) where
  finalize : Content → Except Raised Unit

section

variable {Content : Type}

/-- One request of the contract service, up to its journal. -/
def judge (finalizer : Finalizer Content) : ProviderOutcome Content → Verdict
  | .error text record cost pending =>
      if record.generationSucceeded || pending then .pending
      else .exhausted ⟨"GenerationProviderError", text, record, cost⟩
  | .result content record cost =>
      if !record.success || !record.publicationComplete || record.archives.size = 0 then
        .exhausted ⟨"GroundingError",
          PyText.ofString "accepted generation requires complete archived receipts", record, cost⟩
      else
        match finalizer.finalize content with
        | .ok _ => .other
        | .error raised =>
            if raised.kind = .value then .exhausted ⟨raised.name, raised.text, record, cost⟩ else .other

/-! ### Documents -/

/-- The request of an attempt and the digest of its generation request. -/
structure AuthoringRequest where
  ref : ArtifactRef
  requestSha256 : String
  lane : Identifier

/-- The time of a record as a model writes it. -/
def dumpTime (isoformat : String) : String :=
  String.ofList (isoformat.toList.take (isoformat.length - "+00:00".length)) ++ "Z"

def recordDocument (record : CallRecord) : Json :=
  .obj [("attempt_id", .str record.attempt.attemptId), ("recorded_at", .str (dumpTime record.attempt.recordedAt)),
    ("request_id", .str record.requestId), ("response_id", .str record.responseId),
    ("success", .bool record.success), ("generation_succeeded", .bool record.generationSucceeded),
    ("publication_complete", .bool record.publicationComplete), ("error_code", nullable .str record.errorCode),
    ("archives", .obj (record.archives.entries.map fun entry => (entry.1, ArtifactRef.codec.document entry.2)))]

/-- The journal of a refused attempt; its error text must have bytes. -/
def journal (request : AuthoringRequest) (rejection : Rejection) : Option Json := do
  let error ← encodeText (some rejection.error)
  return .obj [("stage", .str "initial_authoring"), ("request_sha256", .str request.requestSha256),
    ("status", .str "rejected"), ("error_type", .str rejection.errorType), ("error", error),
    ("generation_record", recordDocument rejection.record),
    ("cost", CostRecord.codec.document rejection.cost)]

def exhaustedText (rejection : Rejection) : PyText :=
  PyText.ofString "initial_authoring authoring failed: " ++ rejection.error

/-! ### Receipts -/

structure Receipt where
  claim : Claim
  request : ArtifactRef
  journalRef : ArtifactRef
  reason : String
  lane : Identifier
  costs : List CostRecord
  revision : Revision
  recordedAt : String
  bounded : 1 ≤ reason.length ∧ reason.length ≤ 4096

def Receipt.document (receipt : Receipt) : Json :=
  .obj [("version", .str "m6-authoring-receipt-v1"), ("claim", Claim.codec.document receipt.claim),
    ("request", ArtifactRef.codec.document receipt.request), ("outputs", .arr []),
    ("journal_refs", .arr [ArtifactRef.codec.document receipt.journalRef]),
    ("disposition", Disposition.codec.document .rejected), ("reason", .str receipt.reason),
    ("stage", .str "authoring"), ("lane", Identifier.codec.document receipt.lane),
    ("costs", .arr (receipt.costs.map CostRecord.codec.document)),
    ("revision", Revision.codec.document receipt.revision), ("recorded_at", .str (dumpTime receipt.recordedAt))]

def maxDocument : Nat := 1024 * 1024

def maxJournal : Nat := 65536

/-- What surrounds the attempt: its claim, the factory's revision, the clock and the content addresses. -/
structure Setting where
  claim : Claim
  revision : Revision
  request : AuthoringRequest
  recordedAt : String
  journalRef : Bytes → ArtifactRef
  receiptRef : Bytes → ArtifactRef

/-- The attempt's job with its generation snapshot. -/
structure Job where
  costs : List CostRecord
  frozen : Option (Receipt × Json)
  result : Option (Disposition × String × List ArtifactRef)

inductive Failure where
  | pending
  | recoveryRequired
  | invalid
  | publication (message : String)

variable (setting : Setting)

/-- The frozen receipt of a refused attempt, where its model accepts it. -/
def receiptOf (rejection : Rejection) (journal : Bytes) (costs : List CostRecord) : Option Receipt :=
  match (exhaustedText rejection).string? with
  | none => none
  | some reason =>
      if bounded : 1 ≤ reason.length ∧ reason.length ≤ 4096 then
        some ⟨setting.claim, setting.request.ref, setting.journalRef journal, reason, setting.request.lane, costs,
          setting.revision, setting.recordedAt, bounded⟩
      else none

/-- The record and the cost that the archive of the call reads back to. -/
def ProviderOutcome.selected : ProviderOutcome Content → CallRecord × CostRecord
  | .result _ record cost => (record, cost)
  | .error _ record cost _ => (record, cost)

def member (document : Json) (name : String) : Option Json :=
  match document with
  | .obj members => members.lookup name
  | _ => none

def names (document : Json) (name : String) (value : Json) : Bool :=
  (member document name).map Json.canonical = some value.canonical

/-- The journal fits its reader, belongs to the request and names the archived record and cost. -/
def validateReceipt (setting : Setting) (archived : Option (ProviderOutcome Content)) (journal : Json) :
    Except Failure Unit :=
  if maxJournal < journal.canonical.length then .error (.publication "artifact exceeds its byte cap")
  else if !names journal "stage" (.str "initial_authoring") then
    .error (.publication "authoring journal changed canonical stage")
  else if !names journal "request_sha256" (.str setting.request.requestSha256) then
    .error (.publication "authoring journal belongs to another exact request")
  else if !names journal "status" (.str "rejected") then
    .error (.publication "authoring selected disposition differs from journal")
  else
    match archived with
    | none => .error .recoveryRequired
    | some outcome =>
        if !names journal "generation_record" (recordDocument outcome.selected.1) ||
            !names journal "cost" (CostRecord.codec.document outcome.selected.2) then
          .error (.publication "journal changed its actual provider record/cost")
        else .ok ()

def publish (archived : Option (ProviderOutcome Content)) (receipt : Receipt) (journal : Json) (job : Job) :
    Except Failure Job :=
  let payload := receipt.document.canonical
  if maxDocument < payload.length then .error (.publication "authoring receipt reader cap")
  else if job.result.isSome then .ok job
  else if job.costs ≠ receipt.costs then
    .error (.publication "frozen authoring costs differ from selected generation accounting")
  else if job.frozen.any fun selected => selected.1.document.canonical ≠ payload then
    .error (.publication "authoring publication differs from the already selected frozen receipt")
  else do
    validateReceipt setting archived journal
    return { job with
      frozen := some (receipt, journal)
      result := some (.rejected, receipt.reason, [setting.receiptRef payload]) }

/-- The contract service on one outcome, and the publication of its refusal. -/
def execute (finalizer : Finalizer Content) (archived : Option (ProviderOutcome Content))
    (outcome : ProviderOutcome Content) (job : Job) : Except Failure Job :=
  match judge finalizer outcome with
  | .pending => .error .pending
  | .other => .error .recoveryRequired
  | .exhausted rejection =>
      match journal setting.request rejection with
      | none => .error .recoveryRequired
      | some document =>
          match receiptOf setting rejection document.canonical job.costs with
          | none => .error .invalid
          | some receipt => publish setting archived receipt document job

/-- A recovery publishes the frozen receipt, or executes the archived outcome again. -/
def recover (finalizer : Finalizer Content) (archived : Option (ProviderOutcome Content)) (job : Job) :
    Except Failure Job :=
  if job.result.isSome then .ok job
  else
    match job.frozen, archived with
    | some (receipt, journal), _ => publish setting archived receipt journal job
    | none, none => .error .recoveryRequired
    | none, some outcome => execute setting finalizer archived outcome job

/-- Another attempt of the candidate may be dispatched. -/
def Job.unblocked (job : Job) : Prop := job.result.isSome = true

end

/-! ### Settling -/

def Settles (outcome : Except Failure Job) : Prop :=
  ∃ job reason artifacts, outcome = .ok job ∧ job.result = some (.rejected, reason, artifacts) ∧ job.unblocked

/-- The text and the documents of a refusal fit their models and readers. -/
structure Fits (setting : Setting) (rejection : Rejection) (costs : List CostRecord) : Prop where
  length : (exhaustedText rejection).length ≤ 4096
  encodable : rejection.error.encodable = true
  read : ∀ document, journal setting.request rejection = some document →
    document.canonical.length ≤ maxJournal
  published : ∀ document receipt, journal setting.request rejection = some document →
    receiptOf setting rejection document.canonical costs = some receipt →
    receipt.document.canonical.length ≤ maxDocument

section

variable {setting : Setting} {rejection : Rejection}

theorem isSome_journal : (journal setting.request rejection).isSome = rejection.error.encodable := by
  rw [← PyText.isSome_string?, journal, encodeText]
  cases rejection.error.string? <;> rfl

theorem encodable_exhaustedText : (exhaustedText rejection).encodable = rejection.error.encodable := by
  rw [exhaustedText, PyText.encodable_append, PyText.encodable_ofString, Bool.true_and]

theorem receiptOf_eq_some {journal : Bytes} {costs : List CostRecord} {receipt : Receipt}
    (built : receiptOf setting rejection journal costs = some receipt) :
    (exhaustedText rejection).length ≤ 4096 ∧ receipt.costs = costs := by
  rw [receiptOf] at built
  split at built
  next => cases built
  next reason found =>
    split at built
    next bounded =>
      obtain rfl := Option.some.inj built
      rw [PyText.length_string? found] at bounded
      exact ⟨bounded.2, rfl⟩
    next => cases built

theorem exists_receiptOf (journal : Bytes) (costs : List CostRecord)
    (encodable : rejection.error.encodable = true) (short : (exhaustedText rejection).length ≤ 4096) :
    ∃ receipt, receiptOf setting rejection journal costs = some receipt := by
  have found : (exhaustedText rejection).string?.isSome = true := by
    rw [PyText.isSome_string?, encodable_exhaustedText, encodable]
  obtain ⟨reason, found⟩ := Option.isSome_iff_exists.mp found
  have bounded : 1 ≤ reason.length ∧ reason.length ≤ 4096 := by
    rw [PyText.length_string? found]
    refine ⟨?_, short⟩
    rw [exhaustedText, List.length_append]
    exact Nat.le_add_right_of_le (by decide)
  rw [receiptOf, found]
  simp only [dif_pos bounded]
  exact ⟨_, rfl⟩

theorem names_journal {document : Json} (found : journal setting.request rejection = some document) :
    names document "stage" (.str "initial_authoring") = true ∧
      names document "request_sha256" (.str setting.request.requestSha256) = true ∧
      names document "status" (.str "rejected") = true ∧
      names document "generation_record" (recordDocument rejection.record) = true ∧
      names document "cost" (CostRecord.codec.document rejection.cost) = true := by
  rw [journal] at found
  cases encoded : encodeText (some rejection.error) with
  | none => rw [encoded] at found; cases found
  | some error =>
      rw [encoded] at found
      obtain rfl := Option.some.inj found
      simp [names, member, List.lookup_cons]

variable {Content : Type} {finalizer : Finalizer Content} {outcome : ProviderOutcome Content}

theorem selected_of_judge (rejects : judge finalizer outcome = .exhausted rejection) :
    outcome.selected = (rejection.record, rejection.cost) := by
  cases outcome with
  | error text record cost pending =>
      rw [judge] at rejects
      split at rejects
      next => cases rejects
      next => obtain rfl := Verdict.exhausted.inj rejects; rfl
  | result content record cost =>
      rw [judge] at rejects
      split at rejects
      next => obtain rfl := Verdict.exhausted.inj rejects; rfl
      next =>
        split at rejects
        next => cases rejects
        next =>
          split at rejects
          next => obtain rfl := Verdict.exhausted.inj rejects; rfl
          next => cases rejects

theorem validateReceipt_eq {document : Json} (rejects : judge finalizer outcome = .exhausted rejection)
    (found : journal setting.request rejection = some document) :
    validateReceipt setting (some outcome) document =
      if maxJournal < document.canonical.length then .error (.publication "artifact exceeds its byte cap")
      else .ok () := by
  obtain ⟨stage, sha256, status, record, cost⟩ := names_journal found
  simp [validateReceipt, selected_of_judge rejects, stage, sha256, status, record, cost]

theorem publish_eq {job : Job} {document : Json} {receipt : Receipt}
    (rejects : judge finalizer outcome = .exhausted rejection) (running : job.result = none ∧ job.frozen = none)
    (found : journal setting.request rejection = some document) (costs : receipt.costs = job.costs) :
    publish setting (some outcome) receipt document job =
      if maxDocument < receipt.document.canonical.length then .error (.publication "authoring receipt reader cap")
      else if maxJournal < document.canonical.length then .error (.publication "artifact exceeds its byte cap")
      else .ok { job with
        frozen := some (receipt, document)
        result := some (.rejected, receipt.reason, [setting.receiptRef receipt.document.canonical]) } := by
  have validated := validateReceipt_eq rejects found
  by_cases large : maxDocument < receipt.document.canonical.length
  · simp only [publish, if_pos large]
  · simp only [publish, if_neg large, running.1, running.2, costs, validated, Option.isSome_none, Option.any_none,
      Bool.false_eq_true, ne_eq, not_true_eq_false, if_false]
    by_cases long : maxJournal < document.canonical.length
    · simp only [if_pos long]
      rfl
    · simp only [if_neg long]
      rfl

theorem execute_eq {job : Job} {document : Json} {receipt : Receipt}
    (rejects : judge finalizer outcome = .exhausted rejection)
    (found : journal setting.request rejection = some document)
    (built : receiptOf setting rejection document.canonical job.costs = some receipt) :
    execute setting finalizer (some outcome) outcome job = publish setting (some outcome) receipt document job := by
  simp only [execute, rejects, found, built]

/-- A refused attempt that runs without a receipt settles exactly when it fits. -/
theorem execute_settles {job : Job} (rejects : judge finalizer outcome = .exhausted rejection)
    (running : job.result = none ∧ job.frozen = none) :
    Settles (execute setting finalizer (some outcome) outcome job) ↔ Fits setting rejection job.costs := by
  constructor
  · rintro ⟨after, reason, artifacts, done, _⟩
    cases found : journal setting.request rejection with
    | none => simp [execute, rejects, found] at done
    | some document =>
        cases built : receiptOf setting rejection document.canonical job.costs with
        | none => simp [execute, rejects, found, built] at done
        | some receipt =>
            have costs := (receiptOf_eq_some built).2
            rw [execute_eq rejects found built, publish_eq rejects running found costs] at done
            by_cases large : maxDocument < receipt.document.canonical.length
            · rw [if_pos large] at done
              cases done
            · by_cases long : maxJournal < document.canonical.length
              · rw [if_neg large, if_pos long] at done
                cases done
              · refine ⟨(receiptOf_eq_some built).1, ?_, fun other same => ?_, fun other selected same rebuilt => ?_⟩
                · rw [← @isSome_journal setting, found]
                  rfl
                · obtain rfl := Option.some.inj (found.symm.trans same)
                  exact Nat.le_of_not_lt long
                · obtain rfl := Option.some.inj (found.symm.trans same)
                  obtain rfl := Option.some.inj (built.symm.trans rebuilt)
                  exact Nat.le_of_not_lt large
  · intro fits
    obtain ⟨document, found⟩ := Option.isSome_iff_exists.mp ((@isSome_journal setting rejection).trans fits.encodable)
    obtain ⟨receipt, built⟩ := exists_receiptOf document.canonical job.costs fits.encodable fits.length
    rw [execute_eq rejects found built, publish_eq rejects running found (receiptOf_eq_some built).2, if_neg (Nat.not_lt.mpr (fits.published document receipt found built)),
      if_neg (Nat.not_lt.mpr (fits.read document found))]
    exact ⟨_, _, _, rfl, rfl, rfl⟩

theorem recover_eq {job : Job} (running : job.result = none ∧ job.frozen = none) :
    recover setting finalizer (some outcome) job = execute setting finalizer (some outcome) outcome job := by
  simp [recover, running.1, running.2]

end

namespace Sample

open State.Sample (claim source cost)

def python : Python where
  readEvents _ := .ok []
  repr _ := []
  invalidUsage _ := Raised.valueError []
  surrogatesNotAllowed _ := ""

def process : ProcessOutcome where
  termination := "process_exit"
  exitStatus := some 1
  wallSeconds := zeroFloat
  cpuSeconds := zeroFloat
  stdout := []
  stderr := List.replicate 4096 120
  memorySamples := 1
  maxSampledPhysicalFootprintBytes := none
  maxReportedLifetimePhysicalFootprintBytes := none
  breachSample := none
  processGroupCleanupVerified := true
  monitoringFailures := 0
  monitorErrorType := none
  monitorError := none
  cleanupError := none
  cpuLimitEnforcement := "kernel_rlimit_cpu"
  outputLimitEnforcement := "captured_output_and_final_response"
  memoryLimitEnforcement := "sampled_process_memory"
  maxSampledResidentBytes := some 4096

/-- Standard error holds ASCII only. -/
def host : Host Unit where
  prompt := []
  transportSchema := .ok (.obj [])
  verify := .ok "codex-cli 1.0"
  run := .ok process
  responseFile := none
  decodeStderr bytes := bytes.map fun byte => .scalar (Char.ofNat byte.toNat)
  parseEnvelope _ := .ok ()
  base64 _ := ""

def record : CallRecord :=
  ⟨⟨"gen-1", "2026-01-01T00:00:00+00:00", .null⟩, "req-1", "resp-1", false, false, true, some "CodexUnavailable",
    archiveKinds.foldl (fun refs kind => refs.set kind source) .empty⟩

def text : PyText := (exitFailure python host process).text

def outcome : ProviderOutcome Unit := .error text record cost false

def rejection : Rejection := ⟨"GenerationProviderError", text, record, cost⟩

def setting : Setting where
  claim := claim
  revision := State.Sample.spec.implementation
  request := ⟨source, "6ad189ace456a83fade855d5a647cd8ad9e7966da4404b1187218dca3d9eddaa", ⟨"contract", by decide⟩⟩
  recordedAt := "2026-01-01T00:00:01+00:00"
  journalRef _ := source
  receiptRef _ := source

def finalizer : Finalizer Unit := ⟨fun _ => .ok ()⟩

def job : Job := ⟨[cost], none, none⟩

theorem length_text : 4096 ≤ text.length := by
  have unread : parseEvents python process.stdout = .error (Raised.valueError
      (PyText.ofString "Codex emitted no valid JSONL events")) := rfl
  simp only [text, exitFailure, unread, Raised.valueError, Raised.codexUnavailable, reduceCtorEq, if_false,
    List.length_append, PyText.last, List.length_drop]
  simp only [host, process, List.length_map, List.length_replicate]
  omega

end Sample

end Settlement

end FeatureRl
