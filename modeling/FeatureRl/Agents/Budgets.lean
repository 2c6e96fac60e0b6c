import FeatureRl.Agents.Runner
import Mathlib.Algebra.Order.BigOperators.Group.List

/-!
An episode ends within its limits: every turn that continues spends a tool call, and a
completion is asked for only while its context and its tokens still fit.
-/

namespace FeatureRl

open Checked

namespace Agents

variable {S R : Type} {world : World S R} {policy : PolicyConfig} {limits : ResourceLimits S}
  {episode after : Episode S}

/-! ### What a stop says about the last turn -/

def lastObservation (episode : Episode S) : Option Observation :=
  episode.steps.getLast?.map EpisodeStep.observation

/-- No turn yet, or one that ran a tool. -/
def Unsettled : Option Observation → Prop
  | none => True
  | some (.executed ..) => True
  | _ => False

def EndsWith : StopReason → Option Observation → Prop
  | .submitted, last => last = some .submitted
  | .malformedAction, last => ∃ reason, last = some (.malformedAction reason)
  | .tokenLimit, last => last = some .tokenLimit ∨ Unsettled last
  | .timeLimit, last => last = some .timeLimit ∨ Unsettled last
  | .toolLimit, last => Unsettled last
  | .candidateFailure, _ => False
  | .infrastructureFailure, _ => False
  | .invalidTrajectory, _ => False

/-! ### Invariants -/

/-- The turns so far are numbered, carry the policy of the episode, and sampled what was used. -/
structure Turns (policy : PolicyConfig) (episode : Episode S) : Prop where
  numbered : episode.steps.map EpisodeStep.index = List.range episode.steps.length
  traced : ∀ step ∈ episode.steps, ∀ trace ∈ step.tokenTrace, trace.policyVersion = policy.policyVersion

def sampledTokens (episode : Episode S) : Nat :=
  (episode.steps.map fun step => step.action.tokens.length).sum

/-- An episode that goes on. -/
structure Running (policy : PolicyConfig) (limits : ResourceLimits S) (episode : Episode S) : Prop
    extends Turns policy episode where
  input : episode.usedIn ≤ limits.inputTokens
  output : episode.usedOut ≤ limits.outputTokens
  tools : episode.tools ≤ limits.toolCalls
  measuredIn : (episode.measured.map Prod.fst).sum = episode.usedIn
  measuredOut : (episode.measured.map Prod.snd).sum = episode.usedOut
  sampled : sampledTokens episode = episode.usedOut
  stop : episode.stop = .submitted
  unsettled : Unsettled (lastObservation episode)

/-- An episode that is over, by a failure if there is one. Only the last completion may be larger
than what was left. -/
structure Ended (policy : PolicyConfig) (limits : ResourceLimits S) (episode : Episode S)
    (failure : Option Raised) : Prop extends Turns policy episode where
  input : (episode.measured.map Prod.fst).sum ≤ limits.inputTokens
  output : (episode.measured.dropLast.map Prod.snd).sum ≤ limits.outputTokens
  tools : episode.tools ≤ limits.toolCalls
  sampled : sampledTokens episode ≤ limits.outputTokens
  settled : failure = none → (episode.measured.map Prod.snd).sum ≤ limits.outputTokens ∧
    EndsWith episode.stop (lastObservation episode)

theorem sum_dropLast_le (measured : List (Nat × Nat)) :
    (measured.dropLast.map Prod.snd).sum ≤ (measured.map Prod.snd).sum :=
  ((List.dropLast_sublist measured).map Prod.snd).sum_le_sum fun _ _ => Nat.zero_le _

/-- An episode may stop before its next turn. -/
theorem Running.stops (running : Running policy limits episode) {stop : StopReason}
    (ends : Unsettled (lastObservation episode) → EndsWith stop (lastObservation episode)) :
    Ended policy limits { episode with stop } none where
  numbered := running.numbered
  traced := running.traced
  input := running.measuredIn.trans_le running.input
  output := (sum_dropLast_le _).trans (running.measuredOut.trans_le running.output)
  tools := running.tools
  sampled := running.sampled.trans_le running.output
  settled _ := ⟨running.measuredOut.trans_le running.output, ends running.unsettled⟩

theorem Running.fails (running : Running policy limits episode) (failure : Raised) :
    Ended policy limits episode (some failure) where
  toTurns := running.toTurns
  input := running.measuredIn.trans_le running.input
  output := (sum_dropLast_le _).trans (running.measuredOut.trans_le running.output)
  tools := running.tools
  sampled := running.sampled.trans_le running.output
  settled none := by cases none

/-- The turns with one more. -/
theorem Turns.concat (turns : Turns policy episode) {completion : Completion} {observation : Observation}
    {trace : Option TokenTrace} (traced : ∀ shown ∈ trace, shown.policyVersion = policy.policyVersion)
    (steps : after.steps = episode.steps ++ [⟨episode.steps.length, completion, observation, trace⟩]) :
    Turns policy after where
  numbered := by
    rw [steps, List.map_append, turns.numbered, List.length_append, List.length_singleton, List.range_succ]
    rfl
  traced step member := by
    rw [steps] at member
    rcases List.mem_append.mp member with before | last
    · exact turns.traced step before
    · rw [List.mem_singleton.mp last]
      exact traced

/-! ### Completions -/

theorem validate_eq_ok {completion : Completion} {context : List Int} {maxTokens : Int} {vocabSize : Nat}
    (valid : completion.validate context policy maxTokens vocabSize = .ok ()) :
    (completion.tokens.length : Int) ≤ maxTokens := by
  simp only [Completion.validate, bind_eq_ok, refuse_eq_ok, not_or, not_lt] at valid
  obtain ⟨_, _, _, _, _, _, _, ⟨_, fits, _⟩, _⟩ := valid
  exact fits

theorem traceOf_eq_ok {context : List Int} {completion : Completion} {traced : Option TokenTrace}
    (shown : traceOf policy context completion = .ok traced) :
    ∀ trace ∈ traced, trace.policyVersion = policy.policyVersion := by
  rw [traceOf] at shown
  split at shown
  next =>
    obtain rfl := Except.ok.inj shown
    simp
  next =>
    split at shown
    next =>
      obtain rfl := Except.ok.inj shown
      simp
    next logprobs _ _ =>
      intro trace member
      generalize created : TokenTrace.create _ = result at shown
      cases result with
      | error failure => cases shown
      | ok made =>
          obtain rfl := Except.ok.inj shown
          obtain rfl := Option.some.inj member
          simp only [TokenTrace.create, bind_eq_ok] at created
          obtain ⟨_, _, _, _, _, _, same⟩ := created
          rw [← Except.ok.inj same]

/-- Everything that asking for a completion can do. -/
inductive Sampled (policy : PolicyConfig) (context : List Int) (maxTokens : Int) (before : Episode S) :
    Episode S × Except Raised (Completion × Option TokenTrace) → Prop
  | undelivered {failure : Raised} : Sampled policy context maxTokens before (before, .error failure)
  | refused {after : Episode S} {failure : Raised} (sampled : Nat)
      (steps : after.steps = before.steps) (tools : after.tools = before.tools)
      (measured : after.measured = before.measured ++ [(context.length, sampled)]) :
      Sampled policy context maxTokens before (after, .error failure)
  | accepted {completion : Completion} {trace : Option TokenTrace}
      (fits : (completion.tokens.length : Int) ≤ maxTokens)
      (traced : ∀ shown ∈ trace, shown.policyVersion = policy.policyVersion) :
      Sampled policy context maxTokens before ({ before with
        measured := before.measured ++ [(context.length, completion.tokens.length)]
        usedIn := before.usedIn + context.length
        usedOut := before.usedOut + completion.tokens.length }, .ok (completion, trace))

theorem sampled_sample {index : Nat} {context : List Int} {maxTokens : Int} :
    Sampled policy context maxTokens episode (sample world policy index context maxTokens episode) := by
  rw [sample]
  split
  next => exact .undelivered
  next =>
    split
    next => exact .undelivered
    next completion _ =>
      dsimp only
      split
      next => exact .refused completion.tokens.length rfl rfl rfl
      next => exact .refused completion.tokens.length rfl rfl rfl
      next valid =>
        cases shown : traceOf policy context completion with
        | error failure => exact .refused completion.tokens.length rfl rfl rfl
        | ok trace => exact .accepted (validate_eq_ok valid) (traceOf_eq_ok shown)

/-! ### Actions -/

/-- An action leaves the turns and the tokens as they are. -/
structure Kept (before after : Episode S) : Prop where
  steps : after.steps = before.steps
  usedIn : after.usedIn = before.usedIn
  usedOut : after.usedOut = before.usedOut
  measured : after.measured = before.measured
  tools : after.tools ≤ before.tools + 1

/-- Everything that an action can do. -/
inductive Did (before : Episode S) : Episode S × Except Raised (Acted S) → Prop
  | failed {after : Episode S} {failure : Raised} (kept : Kept before after) :
      Did before (after, .error failure)
  | ended {after : Episode S} {acted : Acted S} (kept : Kept before acted.episode)
      (terminal : acted.terminal = true) (valid : acted.invalid = false)
      (ends : EndsWith acted.episode.stop (some acted.observation)) : Did before (after, .ok acted)
  | ran {after : Episode S} {acted : Acted S} (kept : Kept before acted.episode)
      (going : acted.terminal = false) (spent : acted.episode.tools = before.tools + 1)
      (stop : acted.episode.stop = before.stop) (unsettled : Unsettled (some acted.observation)) :
      Did before (after, .ok acted)

theorem Kept.refl (episode : Episode S) : Kept episode episode := ⟨rfl, rfl, rfl, rfl, Nat.le_succ _⟩

theorem did_stops {before spent : Episode S} {stop : StopReason} {observation : Observation}
    (kept : Kept before spent) (ends : EndsWith stop (some observation)) :
    Did before (spent, .ok (.stops spent stop observation)) :=
  .ended ⟨kept.steps, kept.usedIn, kept.usedOut, kept.measured, kept.tools⟩ rfl rfl ends

variable [Zero S] [Add S] [LE S] [DecidableLE S]

omit [Zero S] [LE S] [DecidableLE S] in
theorem did_callTool {index : Nat} {request : R} : Did episode (callTool world episode index request) := by
  have spent : Kept episode { episode with tools := episode.tools + 1 } := ⟨rfl, rfl, rfl, rfl, le_rfl⟩
  rw [callTool]
  split
  next reason _ => exact did_stops (.refl episode) ⟨reason, rfl⟩
  next =>
    dsimp only
    split
    next reason _ => exact did_stops spent ⟨reason, rfl⟩
    next => exact .failed spent
    next => exact .ran ⟨rfl, rfl, rfl, rfl, le_rfl⟩ rfl rfl rfl trivial

theorem did_act (going : episode.stop = .submitted) {index : Nat} {completion : Completion} :
    Did episode (act world episode index completion) := by
  rw [act]
  split
  next => exact did_stops (.refl episode) (.inl rfl)
  next =>
    split
    next reason _ => exact did_stops (.refl episode) ⟨reason, rfl⟩
    next => exact .ended (.refl episode) rfl rfl (by rw [going]; rfl)
    next =>
      split
      next => exact did_stops (.refl episode) (.inl rfl)
      next => exact did_callTool

/-! ### Turns -/

def TurnSpec (policy : PolicyConfig) (limits : ResourceLimits S) (before : Episode S) : Turn S → Prop
  | .next after => Running policy limits after ∧ after.tools = before.tools + 1
  | .finished after => Ended policy limits after none
  | .raised failure after => Ended policy limits after (some failure)

/-- What a completion that was accepted leaves to its action. -/
structure Paid (policy : PolicyConfig) (limits : ResourceLimits S) (completion : Completion)
    (episode : Episode S) : Prop extends Turns policy episode where
  input : episode.usedIn ≤ limits.inputTokens
  output : episode.usedOut ≤ limits.outputTokens
  tools : episode.tools < limits.toolCalls
  measuredIn : (episode.measured.map Prod.fst).sum = episode.usedIn
  measuredOut : (episode.measured.map Prod.snd).sum = episode.usedOut
  sampled : sampledTokens episode + completion.tokens.length = episode.usedOut
  stop : episode.stop = .submitted

variable {completion : Completion}

omit [Zero S] [Add S] [LE S] [DecidableLE S] in
/-- A failure before the turn is recorded. -/
theorem Paid.fails (paid : Paid policy limits completion episode) (kept : Kept episode after)
    (failure : Raised) : Ended policy limits after (some failure) where
  numbered := by
    rw [kept.steps]
    exact paid.numbered
  traced := by
    rw [kept.steps]
    exact paid.traced
  input := by
    rw [kept.measured, paid.measuredIn]
    exact paid.input
  output := by
    rw [kept.measured]
    exact (sum_dropLast_le _).trans (paid.measuredOut.trans_le paid.output)
  tools := kept.tools.trans paid.tools
  sampled := by
    have used := paid.sampled
    have bound := paid.output
    rw [sampledTokens, kept.steps]
    rw [sampledTokens] at used
    omega
  settled none := by cases none

omit [Zero S] [Add S] [LE S] [DecidableLE S] in
theorem Paid.record (paid : Paid policy limits completion episode) {trace : Option TokenTrace}
    (traced : ∀ shown ∈ trace, shown.policyVersion = policy.policyVersion)
    {result : Episode S × Except Raised (Acted S)} (did : Did episode result) {index : Nat} :
    TurnSpec policy limits episode (record world index completion trace result) := by
  have recorded : ∀ {acted : Acted S}, Kept episode acted.episode →
      Turns policy { acted.episode with steps := acted.episode.steps ++
        [⟨acted.episode.steps.length, completion, acted.observation, trace⟩] } ∧
      sampledTokens { acted.episode with steps := acted.episode.steps ++
        [⟨acted.episode.steps.length, completion, acted.observation, trace⟩] } = episode.usedOut := by
    intro acted kept
    refine ⟨paid.toTurns.concat traced (by rw [kept.steps]), ?_⟩
    rw [← paid.sampled]
    simp [sampledTokens, kept.steps]
  have last : ∀ {acted : Acted S}, lastObservation { acted.episode with steps := acted.episode.steps ++
      [⟨acted.episode.steps.length, completion, acted.observation, trace⟩] } = some acted.observation := by
    intro acted
    simp [lastObservation]
  cases did with
  | failed kept => exact paid.fails kept _
  | @ended _ acted kept terminal valid ends =>
      rw [Agents.record]
      split
      next => exact paid.fails kept _
      next =>
        obtain ⟨turns, sampled⟩ := recorded kept
        rw [valid, terminal]
        have measured : acted.episode.measured = episode.measured := kept.measured
        refine ⟨turns, ?_, ?_, kept.tools.trans paid.tools, sampled.trans_le paid.output, fun _ => ⟨?_, ?_⟩⟩
        · exact (congrArg (fun list => (list.map Prod.fst).sum) measured).trans_le
            (paid.measuredIn.trans_le paid.input)
        · exact (sum_dropLast_le _).trans ((congrArg (fun list => (list.map Prod.snd).sum) measured).trans_le
            (paid.measuredOut.trans_le paid.output))
        · exact (congrArg (fun list => (list.map Prod.snd).sum) measured).trans_le
            (paid.measuredOut.trans_le paid.output)
        · rw [last]
          exact ends
  | @ran _ acted kept going spent stop unsettled =>
      rw [Agents.record]
      split
      next => exact paid.fails kept _
      next =>
        obtain ⟨turns, sampled⟩ := recorded kept
        have running : Running policy limits { acted.episode with steps := acted.episode.steps ++
            [⟨acted.episode.steps.length, completion, acted.observation, trace⟩] } := by
          refine ⟨turns, kept.usedIn.trans_le paid.input, kept.usedOut.trans_le paid.output,
            kept.tools.trans paid.tools, ?_, ?_, sampled.trans kept.usedOut.symm, stop.trans paid.stop, ?_⟩
          · exact (congrArg (fun list => (list.map Prod.fst).sum) kept.measured).trans
              (paid.measuredIn.trans kept.usedIn.symm)
          · exact (congrArg (fun list => (list.map Prod.snd).sum) kept.measured).trans
              (paid.measuredOut.trans kept.usedOut.symm)
          · rw [last]
            exact unsettled
        dsimp only
        split
        next => exact running.fails _
        next =>
          rw [going]
          exact ⟨running, spent⟩

omit [Zero S] [Add S] [LE S] [DecidableLE S] in
/-- A completion that is refused has been measured. -/
theorem Running.refused (running : Running policy limits episode) {context : List Int} {sampled : Nat}
    (affordable : episode.usedIn + context.length ≤ limits.inputTokens) (steps : after.steps = episode.steps)
    (tools : after.tools = episode.tools)
    (measured : after.measured = episode.measured ++ [(context.length, sampled)]) (failure : Raised) :
    Ended policy limits after (some failure) where
  numbered := by
    rw [steps]
    exact running.numbered
  traced := by
    rw [steps]
    exact running.traced
  input := by
    simpa [measured, running.measuredIn] using affordable
  output := by
    rw [measured, List.dropLast_concat, running.measuredOut]
    exact running.output
  tools := tools.trans_le running.tools
  sampled := by
    rw [sampledTokens, steps]
    exact running.sampled.trans_le running.output
  settled none := by cases none

theorem Running.turn (running : Running policy limits episode) :
    TurnSpec policy limits episode (turn world policy limits episode) := by
  rw [Agents.turn]
  dsimp only
  split
  next => exact running.stops .inr
  next =>
    split
    next => exact running.stops .inr
    next =>
      split
      next => exact running.stops id
      next available =>
        split
        next => exact running.fails _
        next context _ =>
          split
          next => exact running.stops .inr
          next affordable =>
            rw [not_or, not_le, not_lt] at affordable
            have spec := @sampled_sample S R world policy episode episode.steps.length context
              (min (limits.outputTokens - episode.usedOut) (world.maxSeqLen - context.length))
            split
            next shown =>
              rw [shown] at spec
              cases spec with
              | undelivered => exact running.fails _
              | refused sampled steps tools measured =>
                  exact running.refused affordable.2 steps tools measured _
            next after completion trace shown =>
              rw [shown] at spec
              cases spec with
              | accepted fits traced =>
                  have paid : Paid policy limits completion { episode with
                      measured := episode.measured ++ [(context.length, completion.tokens.length)]
                      usedIn := episode.usedIn + context.length
                      usedOut := episode.usedOut + completion.tokens.length } := by
                    refine ⟨⟨running.numbered, running.traced⟩, affordable.2, ?_, not_le.mp available, ?_, ?_, ?_,
                      running.stop⟩
                    · dsimp only
                      omega
                    · simp [running.measuredIn]
                    · simp [running.measuredOut]
                    · exact congrArg (· + completion.tokens.length) running.sampled
                  exact paid.record traced (did_act paid.stop)

/-! ### Whole episodes -/

/-- As many turns as there are tool calls left are enough, and one more that ends the episode. -/
theorem Running.loop (running : Running policy limits episode) {steps : Nat}
    (enough : limits.toolCalls - episode.tools < steps) :
    ∃ after failure, loop world policy limits steps episode = some (after, failure) ∧
      Ended policy limits after failure := by
  induction steps generalizing episode with
  | zero => omega
  | succ steps ih =>
      have spec : TurnSpec policy limits episode (Agents.turn world policy limits episode) := running.turn
      rw [Agents.loop]
      split
      next after shown =>
        rw [shown] at spec
        obtain ⟨again, spent⟩ := spec
        have left := again.tools
        exact ih again (by omega)
      next after shown =>
        rw [shown] at spec
        exact ⟨after, none, rfl, spec⟩
      next failure after shown =>
        rw [shown] at spec
        exact ⟨after, some failure, rfl, spec⟩

omit [Add S] [LE S] [DecidableLE S] in
theorem running_start : Running policy limits (.start : Episode S) where
  numbered := rfl
  traced := by simp [Episode.start]
  input := Nat.zero_le _
  output := Nat.zero_le _
  tools := Nat.zero_le _
  measuredIn := rfl
  measuredOut := rfl
  sampled := rfl
  stop := rfl
  unsettled := trivial

/-- A loop that has ended does not depend on the steps that were left. -/
theorem loop_mono {steps : Nat} {result : Episode S × Option Raised} (more : Nat)
    (ends : loop world policy limits steps episode = some result) :
    loop world policy limits (steps + more) episode = some result := by
  induction steps generalizing episode with
  | zero => cases ends
  | succ steps ih =>
      rw [Nat.succ_add]
      rw [Agents.loop] at ends ⊢
      split at ends
      next => exact ih ends
      next => exact ends
      next => exact ends

end Agents

end FeatureRl
