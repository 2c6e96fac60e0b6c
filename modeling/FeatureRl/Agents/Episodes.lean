import FeatureRl.Grading.Models

/-!
The turns of an agent episode. What the backend, the worker and the stores do at each turn is
left open; the action language is a parameter.
-/

namespace FeatureRl

open Checked

namespace Agents

/-! ### Records -/

inductive StopReason where
  | submitted | tokenLimit | toolLimit | timeLimit | malformedAction | candidateFailure
  | infrastructureFailure | invalidTrajectory
deriving DecidableEq

/-- The limits of an episode, for times of type `S`. -/
structure ResourceLimits (S : Type) where
  wallSeconds : S
  cpuSeconds : S
  toolCalls : Nat
  inputTokens : Nat
  outputTokens : Nat

structure PolicyConfig where
  policyVersion : Identifier
  temperature : Binary64
  topP : Binary64
  requireTokenProbabilities : Bool
  tokenizerDigest : Option Digest

/-- A sampled log probability; `none` is not finite. -/
abbrev Logprob := Option Binary64

def isLogprob : Logprob → Bool
  | none => false
  | some number => number.negative || number.mantissa = 0

structure TokenTrace where
  contextTokenIds : List Int
  sampledTokenIds : List Int
  behaviorLogProbabilities : List Logprob
  assistantLossMask : List Bool
  policyVersion : Identifier

/-- An exception by the handler that it reaches. Artifact, registry and worker failures are
unavailable; an exception of another class is not handled. -/
inductive Raised where
  | value (message : String)
  | unavailable (message : String)
  | recovery
  | other (message : String)

def TokenTrace.create (trace : TokenTrace) : Except Raised TokenTrace := do
  refuse (trace.contextTokenIds.any (fun token => token < 0) = true ∨
      trace.sampledTokenIds.any (fun token => token < 0) = true ∨ trace.sampledTokenIds = [])
    (.value "validation error")
  refuse (¬ (trace.sampledTokenIds.length = trace.behaviorLogProbabilities.length ∧
      trace.behaviorLogProbabilities.length = trace.assistantLossMask.length))
    (.value "token/log-probability/mask lengths differ")
  refuse (trace.behaviorLogProbabilities.all isLogprob = false) (.value "log probabilities must be <= 0")
  .ok trace

/-! ### Completions -/

structure Completion where
  text : String
  context : List Int
  tokens : List Int
  logprobs : Option (List Logprob)
  policyVersion : String
  finishReason : String

def Completion.validate (completion : Completion) (context : List Int) (policy : PolicyConfig)
    (maxTokens : Int) (vocabSize : Nat) : Except Raised Unit := do
  refuse (completion.finishReason ∈ ["abort", "aborted", "error"])
    (.unavailable "native generation aborted; interrupted response is not a candidate action")
  refuse (completion.finishReason ∉ ["stop", "length"]) (.value "unknown native generation finish reason")
  refuse (completion.context ≠ context ∨ completion.policyVersion ≠ policy.policyVersion.val)
    (.value "stale policy or changed generation context")
  refuse (completion.tokens = [] ∨ maxTokens < completion.tokens.length ∨
      completion.tokens.any (fun token => decide (token < 0) || decide (vocabSize ≤ token)) = true)
    (.value "invalid or over-budget sampled token IDs")
  refuse (completion.logprobs.all (fun logprobs =>
      logprobs.length = completion.tokens.length && logprobs.all isLogprob) = false)
    (.value "invalid sampled behavior probabilities")
  refuse (policy.requireTokenProbabilities = true ∧ completion.logprobs = none)
    (.value "required sampled behavior probabilities missing")

/-! ### Actions -/

inductive Observation where
  | submitted | tokenLimit | timeLimit
  | malformedAction (reason : String)
  | executed (status : Grading.WorkerReason) (exitCode : Option Int) (stdout stderr : Bytes)
deriving DecidableEq

/-- An action of the protocol: a submission, or a request to the worker. -/
inductive Action (R : Type) where
  | submit
  | execute (request : R)

structure ToolResult (S : Type) where
  result : Grading.ExecutionResult
  cpuSeconds : Option S

structure EpisodeStep where
  index : Nat
  action : Completion
  observation : Observation
  tokenTrace : Option TokenTrace

/-- Everything around the loop, by the turn at which it happens. `admitted` covers the checks of the
released task and of the policy, `dispatch` and `account` the writes before and after an external
phase, and `store` those of the turn. -/
structure World (S R : Type) where
  maxSeqLen : Nat
  vocabSize : Nat
  parseAction : String → Except String (Action R)
  executionRequest : Nat → R → Except String R
  remaining : Nat → S
  remainingForTool : Nat → S
  admitted : Nat → Except Raised Unit
  render : Nat → Except Raised (List Int)
  dispatch : Nat → Except Raised Unit
  generate : Nat → List Int → Int → Except Raised Completion
  account : Nat → Except Raised Unit
  store : Nat → Except Raised Unit
  execute : Nat → R → Except Raised (ToolResult S)

/-- What an episode has done: its turns, the budgets it used, and the tokens of each generation
as they were measured. -/
structure Episode (S : Type) where
  steps : List EpisodeStep
  usedIn : Nat
  usedOut : Nat
  usedCpu : S
  tools : Nat
  measured : List (Nat × Nat)
  stop : StopReason
  cleanup : Bool

variable {S R : Type} [Zero S] [Add S] [LE S] [DecidableLE S]

def Episode.start : Episode S := ⟨[], 0, 0, 0, 0, [], .submitted, true⟩

/-! ### One turn -/

/-- What an action does to the episode. -/
structure Acted (S : Type) where
  episode : Episode S
  observation : Observation
  terminal : Bool
  invalid : Bool

def Acted.stops (episode : Episode S) (stop : StopReason) (observation : Observation) : Acted S :=
  ⟨{ episode with stop }, observation, true, false⟩

/-- The turn is spent on a tool. -/
def executed (episode : Episode S) (output : ToolResult S) : Acted S where
  episode := { episode with
    usedCpu := output.cpuSeconds.elim episode.usedCpu fun spent => episode.usedCpu + spent
    cleanup := if output.result.failureCategory ∈ [Grading.FailureCategory.infrastructure, .unresolved] ∨
        output.result.cleanupVerified = false then output.result.cleanupVerified else episode.cleanup }
  observation := .executed output.result.reason output.result.exitCode
    (output.result.stdout.take 65536) (output.result.stderr.take 65536)
  terminal := false
  invalid := output.result.failureCategory ∈ [Grading.FailureCategory.infrastructure, .unresolved] ∨
    output.result.cleanupVerified = false

/-- A call of the worker. A `ValueError` of the call counts as a malformed action. -/
def callTool (world : World S R) (episode : Episode S) (index : Nat) (request : R) :
    Episode S × Except Raised (Acted S) :=
  match world.executionRequest index request with
  | .error reason => (episode, .ok (.stops episode .malformedAction (.malformedAction reason)))
  | .ok request =>
      let episode := { episode with tools := episode.tools + 1 }
      match world.execute index request with
      | .error (.value reason) => (episode, .ok (.stops episode .malformedAction (.malformedAction reason)))
      | .error failure => (episode, .error failure)
      | .ok output => (episode, .ok (executed episode output))

def act (world : World S R) (episode : Episode S) (index : Nat) (completion : Completion) :
    Episode S × Except Raised (Acted S) :=
  if completion.finishReason = "length" then (episode, .ok (.stops episode .tokenLimit .tokenLimit))
  else
    match world.parseAction completion.text with
    | .error reason => (episode, .ok (.stops episode .malformedAction (.malformedAction reason)))
    | .ok .submit => (episode, .ok ⟨episode, .submitted, true, false⟩)
    | .ok (.execute request) =>
        if world.remainingForTool index ≤ 0 then (episode, .ok (.stops episode .timeLimit .timeLimit))
        else callTool world episode index request

def Binary64.isOne (number : Binary64) : Bool :=
  number.negative = false ∧ number.mantissa = 2 ^ 52 ∧ number.exponent = -52

def traceOf (policy : PolicyConfig) (context : List Int) (completion : Completion) :
    Except Raised (Option TokenTrace) :=
  match completion.logprobs with
  | none => .ok none
  | some logprobs =>
      if Binary64.isOne policy.temperature = false ∨ Binary64.isOne policy.topP = false then .ok none
      else (TokenTrace.create ⟨context, completion.tokens, logprobs,
        List.replicate completion.tokens.length true, policy.policyVersion⟩).map some

inductive Turn (S : Type) where
  | next (episode : Episode S)
  | finished (episode : Episode S)
  | raised (failure : Raised) (episode : Episode S)

/-- Record the turn. -/
def record (world : World S R) (index : Nat) (completion : Completion) (trace : Option TokenTrace) :
    Episode S × Except Raised (Acted S) → Turn S
  | (episode, .error failure) => .raised failure episode
  | (_, .ok acted) =>
      match world.store index with
      | .error failure => .raised failure acted.episode
      | .ok () =>
          let episode := { acted.episode with
            steps := acted.episode.steps ++ [⟨acted.episode.steps.length, completion, acted.observation, trace⟩] }
          if acted.invalid = true then
            .raised (.unavailable "M3 established infrastructure/unresolved action outcome") episode
          else if acted.terminal = true then .finished episode
          else .next episode

/-- Ask for one completion. What it returns is measured before it is checked. -/
def sample (world : World S R) (policy : PolicyConfig) (index : Nat) (context : List Int)
    (maxTokens : Int) (episode : Episode S) : Episode S × Except Raised (Completion × Option TokenTrace) :=
  match world.dispatch index with
  | .error failure => (episode, .error failure)
  | .ok () =>
      match world.generate index context maxTokens with
      | .error failure => (episode, .error failure)
      | .ok completion =>
          let episode := { episode with
            measured := episode.measured ++ [(context.length, completion.tokens.length)] }
          match world.account index, completion.validate context policy maxTokens world.vocabSize with
          | .error failure, _ => (episode, .error failure)
          | .ok (), .error failure => (episode, .error failure)
          | .ok (), .ok () =>
              let episode := { episode with
                usedIn := episode.usedIn + context.length
                usedOut := episode.usedOut + completion.tokens.length }
              (episode, (traceOf policy context completion).map fun trace => (completion, trace))

def turn (world : World S R) (policy : PolicyConfig) (limits : ResourceLimits S) (episode : Episode S) :
    Turn S :=
  let index := episode.steps.length
  if world.remaining index ≤ 0 then .finished { episode with stop := .timeLimit }
  else if limits.cpuSeconds ≤ episode.usedCpu then .finished { episode with stop := .timeLimit }
  else if limits.toolCalls ≤ episode.tools then .finished { episode with stop := .toolLimit }
  else
    match world.admitted index >>= fun _ => world.render index with
    | .error failure => .raised failure episode
    | .ok context =>
        let maxTokens : Int := min (limits.outputTokens - episode.usedOut) (world.maxSeqLen - context.length)
        if maxTokens ≤ 0 ∨ limits.inputTokens < episode.usedIn + context.length then
          .finished { episode with stop := .tokenLimit }
        else
          match sample world policy index context maxTokens episode with
          | (episode, .error failure) => .raised failure episode
          | (episode, .ok (completion, trace)) =>
              record world index completion trace (act world episode index completion)

/-- Turns until one ends the episode; `none` when the steps run out. -/
def loop (world : World S R) (policy : PolicyConfig) (limits : ResourceLimits S) :
    Nat → Episode S → Option (Episode S × Option Raised)
  | 0, _ => none
  | steps + 1, episode =>
      match turn world policy limits episode with
      | .next episode => loop world policy limits steps episode
      | .finished episode => some (episode, none)
      | .raised failure episode => some (episode, some failure)

end Agents

end FeatureRl
