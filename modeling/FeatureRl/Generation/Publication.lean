import FeatureRl.Contracts.Samples
import FeatureRl.Generation.Provider

/-!
No executed call is lost: its cost is kept, and what the archive misses can be published later,
exactly when no text that a document takes from the process holds a lone surrogate.
-/

namespace FeatureRl

namespace Generation

section

variable {python : Python} {Content σ : Type} {host : Host Content} {request : GenerationRequest}

/-! ### Publication -/

def Working (archive : Archive σ) : Prop :=
  ∀ payload state, ∃ ref after, archive payload state = (.ok ref, after)

theorem publish_working {archive : Archive σ} (working : Working archive) (payloads : List Payload) (refs : Refs)
    (state : σ) : ∃ after rest, publish archive payloads refs state = ((none, after), rest) := by
  induction payloads generalizing refs state with
  | nil => exact ⟨refs, state, rfl⟩
  | cons payload payloads ih =>
      rw [publish]
      split
      next => exact ih refs state
      next =>
        obtain ⟨ref, after, written⟩ := working payload state
        rw [written]
        exact ih _ after

theorem publish_keys {archive : Archive σ} {payloads : List Payload} {refs after : Refs} {state rest : σ}
    (published : publish archive payloads refs state = ((none, after), rest)) :
    (∀ payload ∈ payloads, payload.name ∈ after.keys) ∧ ∀ key ∈ refs.keys, key ∈ after.keys := by
  induction payloads generalizing refs state with
  | nil =>
      obtain rfl : refs = after := (Prod.mk.inj (Prod.mk.inj published).1).2
      exact ⟨by simp, fun _ member => member⟩
  | cons payload payloads ih =>
      rw [publish] at published
      split at published
      next known =>
        obtain ⟨named, kept⟩ := ih published
        refine ⟨fun other member => ?_, kept⟩
        rcases List.mem_cons.mp member with rfl | later
        · exact kept _ (Dict.mem_keys_iff_isSome.mpr known)
        · exact named other later
      next =>
        split at published
        next => cases published
        next ref _ _ =>
          obtain ⟨named, kept⟩ := ih published
          refine ⟨fun other member => ?_, fun key member => ?_⟩
          · rcases List.mem_cons.mp member with rfl | later
            · exact kept _ ((Dict.mem_keys_set _ _ _ _).mpr (.inl rfl))
            · exact named other later
          · exact kept key ((Dict.mem_keys_set _ _ _ _).mpr (.inr member))

/-! ### Replays -/

def Complete (record : CallRecord) : Prop :=
  record.publicationComplete = true ∧ ∀ kind ∈ archiveKinds, kind ∈ record.archives.keys

namespace Recovery

variable {recovery : Recovery Content}

/-- Every kind but the status has a payload. -/
def Covers (recovery : Recovery Content) : Prop :=
  ∀ kind ∈ archiveKinds, kind = "status" ∨ ∃ payload ∈ recovery.payloads, payload.name = kind

def Legible (recovery : Recovery Content) : Prop :=
  ∀ text, recovery.underlyingError = some text → text.encodable = true

theorem isSome_encodeText (text : Option PyText) : (encodeText text).isSome = text.all PyText.encodable := by
  cases text with
  | none => rfl
  | some text => rw [encodeText, Option.isSome_map, PyText.isSome_string?, Option.all_some]

theorem isSome_statusDocument (recovered : Bool) (refs : Refs) :
    (recovery.statusDocument recovered refs).isSome = recovery.underlyingError.all PyText.encodable := by
  rw [← isSome_encodeText, statusDocument]
  cases encodeText recovery.underlyingError <;> rfl

theorem legible_iff : recovery.Legible ↔ recovery.underlyingError.all PyText.encodable = true := by
  rw [Legible]
  cases recovery.underlyingError <;> simp

/-- A replay completes the record, or hands over a recovery that differs in its references only. -/
theorem replay_cases (covers : recovery.Covers) (archive : Archive σ) (recovered : Bool) (state : σ) :
    (∃ refs rest, recovery.replay python archive recovered state = (.ok (recovery.record true refs), rest) ∧
      Complete (recovery.record true refs) ∧ recovery.Legible) ∨
    ∃ failure refs rest, recovery.replay python archive recovered state =
      (.error (recovery.pending failure refs), rest) := by
  rw [replay]
  split
  next failure refs rest published => exact .inr ⟨failure, refs, rest, rfl⟩
  next refs rest published =>
    obtain ⟨named, _⟩ := publish_keys published
    split
    next failure after rest _ => exact .inr ⟨failure, after, rest, rfl⟩
    next after rest' written =>
      rw [publishStatus] at written
      split at written
      next => cases written
      next document found =>
        split at written
        next => cases written
        next ref _ _ =>
          obtain rfl : refs.set "status" ref = after := (Prod.mk.inj (Prod.mk.inj written).1).2
          refine .inl ⟨_, rest', rfl, ⟨rfl, fun kind member => ?_⟩, ?_⟩
          · apply (Dict.mem_keys_set _ _ _ _).mpr
            rcases covers kind member with same | ⟨payload, inside, rfl⟩
            · exact .inl same
            · exact .inr (named payload inside)
          · rw [legible_iff, ← isSome_statusDocument recovered refs, found]
            rfl

theorem replay_working {archive : Archive σ} (working : Working archive) (covers : recovery.Covers)
    (legible : recovery.Legible) (recovered : Bool) (state : σ) :
    ∃ record rest, recovery.replay python archive recovered state = (.ok record, rest) ∧ Complete record := by
  rcases @replay_cases python _ _ recovery covers archive recovered state with
    ⟨refs, rest, replayed, complete, _⟩ | ⟨failure, refs, rest, replayed⟩
  · exact ⟨_, rest, replayed, complete⟩
  · exfalso
    rw [replay] at replayed
    obtain ⟨after, middle, published⟩ := publish_working working recovery.payloads recovery.publishedRefs state
    have encoded := (isSome_statusDocument recovered after).trans (legible_iff.mp legible)
    obtain ⟨document, found⟩ := Option.isSome_iff_exists.mp encoded
    obtain ⟨ref, last, written⟩ := working ⟨"status", document.canonical, recovery.visibility⟩ middle
    simp [published, publishStatus, found, written] at replayed

end Recovery

/-! ### Calls -/

def Completes (python : Python) (recovery : Recovery Content) : Prop :=
  ∀ (τ : Type) (archive : Archive τ) (state : τ), Working archive →
    ∃ record rest, recovery.replay python archive true state = (.ok record, rest) ∧ Complete record

/-- A result or a provider error with this cost, whose archive is complete or can be completed. -/
def Keeps (python : Python) (cost : CostRecord) : Outcome Content → Prop
  | .result result => result.cost = cost ∧ Complete result.record
  | .raised error => error.cost = cost ∧
      (Complete error.record ∨ ∃ recovery, error.recovery = some recovery ∧ Completes python recovery)
  | .escaped _ => False

/-- The process ended by itself and well. -/
def Clean (process : ProcessOutcome) : Prop :=
  process.termination = "process_exit" ∧ process.exitStatus = some 0 ∧ process.monitoringFailures = 0 ∧
    process.processGroupCleanupVerified = true

/-- Where a text of the process that a document takes over holds a lone surrogate. -/
inductive Illegible (python : Python) (host : Host Content) (request : GenerationRequest)
    (process : ProcessOutcome) : Prop
  | monitor {text : PyText} (found : process.monitorError = some text) (lone : text.encodable = false)
  | cleanup {text : PyText} (found : process.cleanupError = some text) (lone : text.encodable = false)
  | telemetry {raised : Raised} (read : observedUsage python process.stdout = .error raised)
      (lone : raised.text.encodable = false)
  | exit {observed : Option GenerationUsage} (read : observedUsage python process.stdout = .ok observed)
      (ended : process.termination = "process_exit") (status : process.exitStatus ≠ some 0)
      (lone : (exitFailure python host process).text.encodable = false)
  | protocol {observed : Option GenerationUsage} {raised : Raised}
      (read : observedUsage python process.stdout = .ok observed) (clean : Clean process)
      (parsed : readMessage python process = .error raised) (lone : raised.text.encodable = false)
  | message {observed : Option GenerationUsage} {text : PyText} {usage : GenerationUsage}
      (read : observedUsage python process.stdout = .ok observed) (clean : Clean process)
      (parsed : readMessage python process = .ok (text, usage)) (lone : text.encodable = false)
  | acceptance {observed : Option GenerationUsage} {text : PyText} {usage : GenerationUsage} {raised : Raised}
      (read : observedUsage python process.stdout = .ok observed) (clean : Clean process)
      (parsed : readMessage python process = .ok (text, usage))
      (refused : acceptMessage host request text usage = .error raised) (lone : raised.text.encodable = false)

/-! ### The verdict -/

/-- The texts that a verdict and its process put into documents have bytes. -/
structure Documented (process : ProcessOutcome) (verdict : Verdict Content) : Prop where
  monitor : process.monitorError.all PyText.encodable = true
  cleanup : process.cleanupError.all PyText.encodable = true
  output : verdict.outputText.all PyText.encodable = true
  failure : ∀ raised, verdict.content = .error (.raised raised) → raised.text.encodable = true

theorem documented_refuse {process : ProcessOutcome} {observed : Option GenerationUsage} {raised : Raised}
    (monitor : process.monitorError.all PyText.encodable = true)
    (cleanup : process.cleanupError.all PyText.encodable = true) :
    Documented process (refuse observed raised : Verdict Content) ↔ raised.text.encodable = true := by
  constructor
  · intro documented
    exact documented.failure raised rfl
  · intro legible
    refine ⟨monitor, cleanup, rfl, fun other same => ?_⟩
    obtain rfl := Caught.raised.inj (Except.error.inj same)
    exact legible

theorem all_encodable {text : Option PyText} (legible : ∀ found, text = some found → found.encodable ≠ false) :
    text.all PyText.encodable = true := by
  cases text with
  | none => rfl
  | some text => exact Bool.eq_true_of_not_eq_false (legible text rfl)

theorem judge_clean {process : ProcessOutcome} {observed : Option GenerationUsage}
    (read : observedUsage python process.stdout = .ok observed) (clean : Clean process) :
    judge python host request process =
      match readMessage python process with
      | .error raised => refuse observed raised
      | .ok (message, usage) =>
          ⟨some usage, some message, (acceptMessage host request message usage).mapError .raised⟩ := by
  obtain ⟨ended, status, monitored, verified⟩ := clean
  simp only [judge, read, ended, status, monitored, verified]
  rfl

theorem judge_exit {process : ProcessOutcome} {observed : Option GenerationUsage}
    (read : observedUsage python process.stdout = .ok observed) (ended : process.termination = "process_exit")
    (status : process.exitStatus ≠ some 0) :
    judge python host request process = refuse observed (exitFailure python host process) := by
  simp [judge, read, ended, status]

theorem Documented.not_illegible {process : ProcessOutcome}
    (documented : Documented process (judge python host request process)) :
    ¬ Illegible python host request process := by
  intro illegible
  cases illegible with
  | monitor found lone =>
      have legible := documented.monitor
      simp [found, lone] at legible
  | cleanup found lone =>
      have legible := documented.cleanup
      simp [found, lone] at legible
  | @telemetry raised read lone =>
      have legible := documented.failure raised (by rw [judge, read]; rfl)
      rw [lone] at legible
      cases legible
  | exit read ended status lone =>
      have legible := documented.failure _ (by rw [judge_exit read ended status]; rfl)
      rw [lone] at legible
      cases legible
  | @protocol observed raised read clean parsed lone =>
      have legible := documented.failure raised (by rw [judge_clean read clean, parsed]; rfl)
      rw [lone] at legible
      cases legible
  | message read clean parsed lone =>
      have legible := documented.output
      rw [judge_clean read clean, parsed] at legible
      simp [lone] at legible
  | @acceptance observed text usage raised read clean parsed refused lone =>
      have legible := documented.failure raised (by
        rw [judge_clean read clean, parsed]
        simp only [refused]
        rfl)
      rw [lone] at legible
      cases legible

theorem documented_judge {process : ProcessOutcome} (legible : ¬ Illegible python host request process) :
    Documented process (judge python host request process) := by
  have monitor : process.monitorError.all PyText.encodable = true :=
    all_encodable fun _ found lone => legible (.monitor found lone)
  have cleanup : process.cleanupError.all PyText.encodable = true :=
    all_encodable fun _ found lone => legible (.cleanup found lone)
  have refused : ∀ observed raised, (raised.text.encodable ≠ false) →
      Documented process (refuse observed raised : Verdict Content) := fun observed raised clear =>
    (documented_refuse monitor cleanup).mpr (Bool.eq_true_of_not_eq_false clear)
  cases read : observedUsage python process.stdout with
  | error raised =>
      rw [judge, read]
      exact refused none raised fun lone => legible (.telemetry read lone)
  | ok observed =>
      by_cases ended : process.termination = "process_exit"
      · by_cases status : process.exitStatus = some 0
        · by_cases verified : process.monitoringFailures = 0 ∧ process.processGroupCleanupVerified = true
          · have clean : Clean process := ⟨ended, status, verified⟩
            rw [judge_clean read clean]
            cases parsed : readMessage python process with
            | error raised => exact refused observed raised fun lone => legible (.protocol read clean parsed lone)
            | ok message =>
                obtain ⟨text, usage⟩ := message
                refine ⟨monitor, cleanup, Bool.eq_true_of_not_eq_false fun lone =>
                  legible (.message read clean parsed lone), fun raised failed => ?_⟩
                cases accepted : acceptMessage host request text usage with
                | error other =>
                    simp only [accepted] at failed
                    obtain rfl : other = raised := Caught.raised.inj (Except.error.inj failed)
                    exact Bool.eq_true_of_not_eq_false fun lone =>
                      legible (.acceptance read clean parsed accepted lone)
                | ok content =>
                    simp only [accepted] at failed
                    cases failed
          · have unverified : (process.monitoringFailures ≠ 0 || !process.processGroupCleanupVerified) = true := by
              by_contra verdict
              simp only [Bool.or_eq_true, decide_eq_true_eq, Bool.not_eq_true', not_or, Bool.not_eq_false] at verdict
              exact verified ⟨not_not.mp verdict.1, verdict.2⟩
            simp only [judge, read, ended, status, unverified, ne_eq, not_true_eq_false, if_false, if_true]
            exact refused _ _ (by simp [Raised.valueError, PyText.encodable_ofString])
        · rw [judge_exit read ended status]
          exact refused _ _ fun lone => legible (.exit read ended status lone)
      · simp only [judge, read, ended, ne_eq, not_false_eq_true, if_true]
        exact refused _ _ (by simp [Raised.valueError, PyText.encodable_ofString])

theorem judge_content (process : ProcessOutcome) :
    (judge python host request process).content ≠ .error .inputLimit := by
  intro limited
  rw [judge] at limited
  split at limited
  next => cases limited
  next =>
    split at limited
    next => cases limited
    next =>
      split at limited
      next => cases limited
      next =>
        split at limited
        next => cases limited
        next =>
          split at limited
          next => cases limited
          next message usage _ =>
            cases accepted : acceptMessage host request message usage <;> rw [accepted] at limited <;> cases limited

theorem execute_process {process : ProcessOutcome} (ran : (execute python host request).process = some process) :
    (execute python host request).verdict = judge python host request process := by
  rw [execute] at ran ⊢
  split at ran
  next => cases ran
  next =>
    split at ran
    next => cases ran
    next fits =>
      simp only [if_neg fits]
      split at ran
      next => cases ran
      next version verified =>
        split at ran
        next => cases ran
        next found executed =>
          obtain rfl : found = process := Option.some.inj ran
          rfl

theorem isSome_responseDocument {execution : Execution Content} {process : ProcessOutcome}
    (ran : execution.process = some process) :
    (responseDocument host execution).isSome = (execution.verdict.outputText.all PyText.encodable &&
      (process.monitorError.all PyText.encodable && process.cleanupError.all PyText.encodable)) := by
  rw [← Recovery.isSome_encodeText, ← Recovery.isSome_encodeText, ← Recovery.isSome_encodeText]
  simp only [responseDocument, ran, boundaryOf, ProcessOutcome.boundary]
  cases encodeText execution.verdict.outputText with
  | none => rfl
  | some output =>
      cases encodeText process.monitorError with
      | none => rfl
      | some monitor => cases encodeText process.cleanupError <;> rfl

theorem process_generate {archive : Archive σ} {options : Options} {attempt : Attempt} {state after : σ}
    {ref : ArtifactRef} (written : archive (attemptPayload request attempt) state = (.ok ref, after)) :
    (generate python host request archive options attempt state).1.process =
      (execute python host request).process := by
  rw [generate, written]
  simp only
  split <;> rfl

/-! ### The recovery of a call -/

variable {archive : Archive σ} {attempt : Attempt} {options : Options} {execution : Execution Content}

theorem covers_recoveryOf (refs : Refs) (response : Json) :
    (recoveryOf request attempt refs execution
      (attemptPayload request attempt :: payloadsOf request options execution response, some response)).Covers := by
  intro kind member
  simp only [archiveKinds, List.mem_cons, List.not_mem_nil, or_false] at member
  rcases member with rfl | rfl | rfl | rfl | rfl | rfl | rfl | rfl | rfl | rfl | rfl
  all_goals simp [recoveryOf, attemptPayload, payloadsOf]

theorem legible_recoveryOf {refs : Refs} {kept : List Payload × Option Json}
    (unlimited : execution.verdict.content ≠ .error .inputLimit) :
    (recoveryOf request attempt refs execution kept).Legible ↔
      ∀ raised, execution.verdict.content = .error (.raised raised) → raised.text.encodable = true := by
  rw [Recovery.Legible]
  cases ended : execution.verdict.content with
  | ok content => simp [recoveryOf, caught?, ended]
  | error caught =>
      cases caught with
      | inputLimit => exact absurd ended unlimited
      | raised raised => simp [recoveryOf, caught?, ended, Caught.text]

/-- The end of a call keeps it exactly when its error has bytes. -/
theorem conclude_keeps {recovery : Recovery Content} (covers : recovery.Covers) (ref : ArtifactRef)
    (archive : Archive σ) (state : σ) :
    Keeps python recovery.cost (conclude python archive execution recovery state).1 ↔ recovery.Legible := by
  rw [conclude]
  rcases @Recovery.replay_cases python _ _ recovery covers archive false state with
    ⟨refs, rest, replayed, complete, legible⟩ | ⟨failure, refs, rest, replayed⟩
  · rw [replayed]
    refine iff_of_true ?_ legible
    cases execution.verdict.content with
    | error caught => exact ⟨rfl, .inl complete⟩
    | ok content => exact ⟨rfl, complete⟩
  · rw [replayed]
    constructor
    · rintro ⟨_, ⟨complete, _⟩ | ⟨later, same, completes⟩⟩
      · cases complete
      · obtain rfl := Option.some.inj same
        -- A replay that completes has encoded the error text.
        obtain ⟨record, after, finished, _⟩ := completes Unit (fun _ _ => (.ok ref, ())) () fun _ _ => ⟨ref, (), rfl⟩
        rcases @Recovery.replay_cases python _ _ { recovery with
            publishedRefs := refs, publicationError := failure.name ++ ": " ++ failure.text } covers
            (fun _ _ => (.ok ref, ())) true () with ⟨_, _, _, _, legible⟩ | ⟨_, _, _, failed⟩
        · exact legible
        · rw [failed] at finished
          cases finished
    · intro legible
      refine ⟨rfl, .inr ⟨_, rfl, fun τ other start working => ?_⟩⟩
      exact @Recovery.replay_working python _ _ { recovery with
        publishedRefs := refs, publicationError := failure.name ++ ": " ++ failure.text } other working covers
        legible true start

end

/-- Once the process has run, the call is kept exactly when no text that a document takes from the process
holds a lone surrogate. -/
theorem generate_keeps_call {Content σ : Type} (python : Python) (host : Host Content) (request : GenerationRequest)
    (archive : Archive σ) (options : Options) (attempt : Attempt) (state : σ) (process : ProcessOutcome)
    (ran : (generate python host request archive options attempt state).1.process = some process) :
    Keeps python (measuredCost process (judge python host request process).usage)
        (generate python host request archive options attempt state).1.outcome ↔
      ¬ Illegible python host request process := by
  rcases written : archive (attemptPayload request attempt) state with ⟨_ | ref, after⟩
  · rw [generate, written] at ran
    cases ran
  · have executed := (process_generate written).symm.trans ran
    rw [generate, written]
    simp only
    have verdict := execute_process executed
    have cost : costOf (execute python host request) =
        measuredCost process (judge python host request process).usage := by
      rw [costOf, executed, verdict]
    have unlimited : (execute python host request).verdict.content ≠ .error .inputLimit := by
      rw [verdict]
      exact judge_content process
    have kept : retained host request options attempt (execute python host request) =
        (responseDocument host (execute python host request)).map fun response =>
          (attemptPayload request attempt ::
            payloadsOf request options (execute python host request) response, some response) := by
      rw [retained]
      split
      next limited => exact absurd limited unlimited
      next => rfl
    have encoded := @isSome_responseDocument _ host _ _ executed
    rw [verdict] at encoded
    rw [kept]
    cases found : responseDocument host (execute python host request) with
    | none =>
        refine iff_of_false id fun legible => ?_
        have documented := documented_judge legible
        rw [found, documented.output, documented.monitor, documented.cleanup] at encoded
        cases encoded
    | some response =>
        simp only [Option.map_some]
        rw [← cost]
        refine (conclude_keeps (covers_recoveryOf _ response) ref archive after).trans ?_
        rw [legible_recoveryOf unlimited, verdict]
        rw [found] at encoded
        have legible := encoded.symm.trans Option.isSome_some
        simp only [Bool.and_eq_true] at legible
        obtain ⟨output, monitor, cleanup⟩ := legible
        constructor
        · intro failure
          exact Documented.not_illegible ⟨monitor, cleanup, output, failure⟩
        · intro legible
          exact (documented_judge legible).failure

/-! ### A sample call: the completed message is one lone surrogate -/

namespace Sample

def key (name : String) (value : Wire) : PyText × Wire := (PyText.ofString name, value)

def text (value : String) : Wire := .str (PyText.ofString value)

def lone : PyText := [.surrogate ⟨0xd800, by decide⟩]

def lines : String :=
  "\x7b\"type\":\"thread.started\",\"thread_id\":\"t1\"\x7d\n\x7b\"type\":\"turn.started\"\x7d\n" ++
  "\x7b\"type\":\"item.completed\",\"item\":\x7b\"type\":\"agent_message\",\"text\":\"\\ud800\"\x7d\x7d\n" ++
  "\x7b\"type\":\"turn.completed\",\"usage\":\x7b\"input_tokens\":10,\"cached_input_tokens\":0,\"output_tokens\":3\x7d\x7d"

def stdout : Bytes := Utf8.encode lines.toList

def usage : GenerationUsage := ⟨10, 0, 3, none, none⟩

def events : List Wire :=
  [.obj [key "type" (text "thread.started"), key "thread_id" (text "t1")],
    .obj [key "type" (text "turn.started")],
    .obj [key "type" (text "item.completed"),
      key "item" (.obj [key "type" (text "agent_message"), key "text" (.str lone)])],
    .obj [key "type" (text "turn.completed"),
      key "usage" (.obj [key "input_tokens" (.int 10), key "cached_input_tokens" (.int 0),
        key "output_tokens" (.int 3)])]]

def python : Python where
  readEvents bytes :=
    if bytes = stdout then .ok events else .error (Raised.valueError (PyText.ofString "Expecting value"))
  repr _ := []
  invalidUsage _ := Raised.valueError (PyText.ofString "Field required")
  surrogatesNotAllowed _ := "'utf-8' codec can't encode character '\\ud800' in position 0: surrogates not allowed"

def process : ProcessOutcome where
  termination := "process_exit"
  exitStatus := some 0
  wallSeconds := zeroFloat
  cpuSeconds := zeroFloat
  stdout := stdout
  stderr := []
  memorySamples := 1
  maxSampledPhysicalFootprintBytes := none
  maxReportedLifetimePhysicalFootprintBytes := none
  breachSample := none
  processGroupCleanupVerified := true
  monitoringFailures := 0
  monitorErrorType := none
  monitorError := none
  cleanupError := none
  cpuLimitEnforcement := "kernel_rlimit_cpu"
  outputLimitEnforcement := "captured_output_and_final_response"
  memoryLimitEnforcement := "sampled_process_memory"
  maxSampledResidentBytes := some 4096

def host : Host Unit where
  prompt := []
  transportSchema := .ok (.obj [])
  verify := .ok "codex-cli 1.0"
  run := .ok process
  responseFile := some ⟨2, .ok (PyText.ofString "{}")⟩
  decodeStderr _ := []
  parseEnvelope _ := .ok ()
  base64 _ := ""

def request : GenerationRequest :=
  ⟨"req-1", "resp-1", "prompt-1", .initialAuthoring, [], [], ⟨1000, 1000, 100, 100, .null⟩, .null, []⟩

def ref : ArtifactRef where
  sha256 := ⟨"6ad189ace456a83fade855d5a647cd8ad9e7966da4404b1187218dca3d9eddaa", isDigest_source⟩
  kind := ⟨"generation-attempt", by decide +kernel⟩
  schemaVersion := 1
  visibility := .authoring
  encoding := .bytes
  bounded := firstSchema

def archive : Archive Unit := fun _ _ => (.ok ref, ())

def options : Options := ⟨"gpt-6-astra", "high", .obj []⟩

def attempt : Attempt := ⟨"gen-1", "2026-01-01T00:00:00+00:00", .null⟩

theorem ran :
    (generate python host request archive options attempt ()).1.process = some process := by
  have written : archive (attemptPayload request attempt) () = (.ok ref, ()) := rfl
  rw [process_generate written]
  rfl

def isEscaped : Outcome Unit → Bool
  | .escaped _ => true
  | _ => false

theorem escaped : isEscaped (generate python host request archive options attempt ()).1.outcome = true := by decide +kernel

theorem not_keeps {outcome : Outcome Unit} (escaped : isEscaped outcome = true) (cost : CostRecord) :
    ¬ Keeps python cost outcome := by
  cases outcome with
  | escaped => exact id
  | result => cases escaped
  | raised => cases escaped

end Sample

theorem generate_keeps_call_sample :
    ∃ cost, Keeps Sample.python cost (generate Sample.python Sample.host Sample.request Sample.archive
        Sample.options Sample.attempt ()).1.outcome ↔
      ¬ Illegible Sample.python Sample.host Sample.request Sample.process :=
  ⟨_, generate_keeps_call Sample.python Sample.host Sample.request Sample.archive Sample.options Sample.attempt ()
    Sample.process Sample.ran⟩

/-- The process has run, and the encoding of its message escapes from the call. -/
theorem generate_loses_call :
    (generate Sample.python Sample.host Sample.request Sample.archive Sample.options Sample.attempt ()).1.process =
        some Sample.process ∧
      ∀ cost, ¬ Keeps Sample.python cost (generate Sample.python Sample.host Sample.request Sample.archive
        Sample.options Sample.attempt ()).1.outcome :=
  ⟨Sample.ran, Sample.not_keeps Sample.escaped⟩

end Generation

end FeatureRl
