import FeatureRl.Agents.Budgets
import FeatureRl.Contracts.Samples

/-!
Every exit of a run builds a record that its own validator accepts, whatever the completions
and the tools were.
-/

namespace FeatureRl

open Checked

namespace Agents

variable {S R : Type} {request : RunInput S} {episode : Episode S}

/-! ### Grading -/

/-- The grade of this task, submission and seed. -/
structure Bound (controller : Controller S R) (request : RunInput S) (submission : ArtifactRef)
    (receipt : Receipt) (grading : List EvidenceRecord) : Prop where
  graded : ∃ index, controller.grade index submission = .ok (some (receipt, grading))
  task : receipt.val.task = request.task
  submission : receipt.val.submission = submission
  caseSeed : receipt.val.caseSeed = request.caseSeed

variable {controller : Controller S R}

theorem gradeFrom_eq_ok {submission : ArtifactRef} {left index : Nat} {receipt : Receipt}
    {grading : List EvidenceRecord}
    (graded : gradeFrom controller request submission left index = .ok (some (receipt, grading))) :
    Bound controller request submission receipt grading := by
  induction left generalizing index with
  | zero => cases graded
  | succ left ih =>
      rw [gradeFrom] at graded
      split at graded
      next => cases graded
      next =>
        split at graded
        next => cases graded
        next => cases graded
        next found =>
          split at graded
          next => cases graded
          next same =>
            split at graded
            next => exact ih graded
            next =>
              obtain ⟨rfl, rfl⟩ := Prod.mk.inj (Option.some.inj (Except.ok.inj graded))
              simp only [ne_eq, Prod.mk.injEq, not_not] at same
              exact ⟨⟨index, found⟩, same.1, same.2.1, same.2.2⟩

/-- A receipt with a reward is that of a success or of a rejection. -/
theorem measured_receipt (receipt : Receipt) {reward : Nat} (measured : receipt.val.reward = some reward) :
    reward ≤ 1 ∧ (receipt.val.disposition = .success ∨ receipt.val.disposition = .rejected) := by
  have coherent := receipt.property
  simp only [Grading.GradeReceipt.coherent, bind_eq_ok, refuse_eq_ok] at coherent
  obtain ⟨_, bounds, _, _, _, _, _, unmeasured, _⟩ := coherent
  simp only [measured, Option.any_some, decide_eq_true_eq, not_or, not_lt] at bounds
  refine ⟨bounds.2.2, ?_⟩
  by_contra other
  exact unmeasured ⟨fun either => absurd either other, fun none => by simp [measured] at none⟩

/-! ### Endings -/

/-- The stops of an ending fit its disposition and its reward. -/
structure Fits (ending : Ending) : Prop where
  stop : ∀ expected ∈ ending.stop.requires, ending.disposition = expected
  regular : ending.stop ≠ .candidateFailure
  bounded : ∀ reward ∈ ending.reward, reward ≤ 1
  measured : ending.reward ≠ none → ending.disposition = .success ∨ ending.disposition = .rejected

theorem fits_invalid : Fits invalidEnding := by
  refine ⟨?_, ?_, ?_, ?_⟩ <;> simp [invalidEnding, StopReason.requires]

theorem fits_infrastructure : Fits infrastructureEnding := by
  refine ⟨?_, ?_, ?_, ?_⟩ <;> simp [infrastructureEnding, StopReason.requires]

theorem requires_of_endsWith {stop : StopReason} {last : Option Observation} (ends : EndsWith stop last) :
    stop.requires = none ∧ stop ≠ .candidateFailure := by
  cases stop <;> first | exact ⟨rfl, by decide⟩ | cases ends

theorem fits_endingOf {stop : StopReason} {last : Option Observation} (ends : EndsWith stop last)
    (submission : ArtifactRef) (receipt : Receipt) (grading : List EvidenceRecord) :
    Fits (endingOf stop submission receipt grading) := by
  obtain ⟨regular, candidate⟩ := requires_of_endsWith ends
  rw [endingOf]
  split
  next reward measured =>
    obtain ⟨bounded, disposition⟩ := measured_receipt receipt measured
    refine ⟨?_, candidate, by simpa using bounded, fun _ => disposition⟩
    simp [regular]
  next =>
    split
    next => refine ⟨?_, ?_, ?_, ?_⟩ <;> simp [StopReason.requires]
    next => refine ⟨?_, ?_, ?_, ?_⟩ <;> simp [StopReason.requires]

/-! ### The validator -/

/-- The record of an ending that fits is honest. -/
theorem honest_recordOf (bundle : request.task.kind.val = "TaskBundle")
    (turns : Turns request.policy episode) {ending : Ending} (fits : Fits ending) :
    (recordOf controller request episode.steps ending).honestRollout = .ok () := by
  simp only [RolloutRecord.honestRollout, bind_eq_ok, refuse_eq_ok, exists_const]
  have eligible : (recordOf controller request episode.steps ending).trainingEligible = true →
      ending.reward ≠ none ∧ episode.steps ≠ [] ∧ (∀ step ∈ episode.steps, step.tokenTrace.isSome = true) ∧
        request.policy.tokenizerDigest ≠ none := by
    intro eligible
    simp only [recordOf, Bool.and_eq_true, List.all_eq_true, Bool.not_eq_true', List.isEmpty_eq_false_iff,
      Option.isSome_iff_ne_none] at eligible
    exact ⟨eligible.1.1.1, eligible.1.1.2, fun step member =>
      Option.isSome_iff_ne_none.mpr (eligible.1.2 step member), eligible.2⟩
  refine ⟨not_not.mpr bundle, ?_, ?_, ?_, ?_, ?_, ?_, ?_, ?_, ?_, ?_⟩
  · cases found : ending.reward with
    | none => simp [recordOf, found]
    | some reward => simpa [recordOf, found] using fits.bounded reward found
  · cases found : ending.stop.requires with
    | none => simp [recordOf, found]
    | some expected => simpa [recordOf, found] using fits.stop expected found
  · rintro ⟨required, trained⟩
    obtain ⟨rewarded, _⟩ := eligible trained
    cases found : ending.stop.requires with
    | none => exact required found
    | some expected =>
        have same := fits.stop expected found
        rcases fits.measured rewarded with success | rejected
        · revert found
          cases stop : ending.stop <;> simp [StopReason.requires] <;> rintro rfl <;> simp [success] at same
        · revert found
          cases stop : ending.stop <;> simp [StopReason.requires] <;> rintro rfl <;> simp [rejected] at same
  · rintro ⟨candidate, _⟩
    exact fits.regular candidate
  · rintro ⟨rewarded, other⟩
    rcases fits.measured rewarded with success | rejected
    · simp [recordOf, success] at other
    · simp [recordOf, rejected] at other
  · rintro ⟨_, empty⟩
    simp [recordOf] at empty
  · rintro ⟨unmeasured, rewarded⟩
    rcases fits.measured rewarded with success | rejected
    · simp [recordOf, success] at unmeasured
    · simp [recordOf, rejected] at unmeasured
  · rintro ⟨trained, unfit⟩
    obtain ⟨rewarded, filled, traced, _⟩ := eligible trained
    rcases unfit with missing | empty | untraced
    · exact rewarded missing
    · exact filled empty
    · obtain ⟨step, member, absent⟩ := List.any_eq_true.mp untraced
      have present := traced step member
      simp [Option.isNone_iff_eq_none.mp absent] at present
  · rintro ⟨trained, unidentified⟩
    exact (eligible trained).2.2.2 unidentified
  · rintro ⟨_, foreign⟩
    obtain ⟨step, member, differs⟩ := List.any_eq_true.mp foreign
    cases found : step.tokenTrace with
    | none => simp [found] at differs
    | some trace =>
        have same := turns.traced step member trace found
        simp [found, recordOf, same] at differs

/-! ### Exits -/

/-- What a frozen record says about its episode. -/
structure Faithful (controller : Controller S R) (request : RunInput S) (episode : Episode S)
    (record : RolloutRecord S) : Prop where
  honest : record.honestRollout = .ok ()
  steps : record.steps = episode.steps
  numbered : record.steps.map EpisodeStep.index = List.range record.steps.length
  rewarded : ∀ reward ∈ record.reward, ∃ submission receipt grading, record.submission = some submission ∧
    Bound controller request submission receipt grading ∧ receipt.val.reward = some reward
  terminal : record.stoppingReason.requires ≠ none ∨
    EndsWith record.stoppingReason (record.steps.getLast?.map EpisodeStep.observation)

/-- A run that freezes no record leaves one pending, or was stopped by an exception of another
class, by the store of its outcome, or before its first turn. -/
def Concluded (controller : Controller S R) (request : RunInput S) (episode : Episode S) :
    Outcome S → Prop
  | .frozen record => Faithful controller request episode record
  | .pending => True
  | .raised failure => (∃ message, failure = .other message) ∨ controller.storeOutcome = .error failure ∨
      request.task.kind.val ≠ "TaskBundle"

theorem freeze_eq_ok {steps : List EpisodeStep} {ending : Ending} {record : RolloutRecord S}
    (froze : freeze controller request steps ending = .ok record) :
    record = recordOf controller request steps ending ∧ record.honestRollout = .ok () := by
  rw [freeze] at froze
  split at froze
  next => cases froze
  next => cases froze
  next =>
    dsimp only at froze
    cases honest : (recordOf controller request steps ending).honestRollout with
    | error failure =>
        rw [honest] at froze
        cases froze
    | ok checked =>
        rw [honest] at froze
        obtain rfl := Except.ok.inj froze
        exact ⟨rfl, honest⟩

/-- Freezing fails with the store, not with the record. -/
theorem freeze_eq_error (turns : Turns request.policy episode) {ending : Ending} (fits : Fits ending)
    {failure : Raised} (failed : freeze controller request episode.steps ending = .error failure) :
    failure = .recovery ∨ controller.storeOutcome = .error failure ∨
      request.task.kind.val ≠ "TaskBundle" := by
  rw [freeze] at failed
  split at failed
  next => exact .inl (Except.error.inj failed).symm
  next stored =>
    obtain rfl := Except.error.inj failed
    exact .inr (.inl stored)
  next =>
    dsimp only at failed
    by_cases bundle : request.task.kind.val = "TaskBundle"
    · rw [honest_recordOf bundle turns fits] at failed
      cases failed
    · exact .inr (.inr bundle)

/-- An exit without a reward. -/
theorem concluded_freeze (turns : Turns request.policy episode) {ending : Ending} (fits : Fits ending)
    (unrewarded : ending.reward = none) (stopped : ending.stop.requires ≠ none) :
    Concluded controller request episode (asOutcome (freeze controller request episode.steps ending)) := by
  cases froze : freeze controller request episode.steps ending with
  | ok record =>
      obtain ⟨rfl, honest⟩ := freeze_eq_ok froze
      exact ⟨honest, rfl, turns.numbered, by simp [recordOf, unrewarded], .inl stopped⟩
  | error failure =>
      rcases freeze_eq_error turns fits froze with rfl | unavailable | foreign
      · exact trivial
      · cases failure with
        | recovery => exact trivial
        | value => exact .inr (.inl unavailable)
        | unavailable => exact .inr (.inl unavailable)
        | other => exact .inr (.inl unavailable)
      · cases failure with
        | recovery => exact trivial
        | value => exact .inr (.inr foreign)
        | unavailable => exact .inr (.inr foreign)
        | other => exact .inr (.inr foreign)

theorem concluded_giveUp (turns : Turns request.policy episode) (opened : Bool) (failure : Raised) :
    Concluded controller request episode (giveUp controller request opened failure episode) := by
  have infrastructure : Concluded controller request episode
      (asOutcome (freeze controller request episode.steps infrastructureEnding)) :=
    concluded_freeze turns fits_infrastructure rfl (by decide)
  have invalid : Concluded controller request episode
      (asOutcome (freeze controller request episode.steps invalidEnding)) :=
    concluded_freeze turns fits_invalid rfl (by decide)
  cases failure with
  | recovery => exact trivial
  | other message => exact .inl ⟨message, rfl⟩
  | unavailable => exact infrastructure
  | value =>
      simp only [giveUp]
      split
      next => exact infrastructure
      next => exact invalid

/-- The ending of a graded source. -/
theorem afterSaved_eq_ok (turns : Turns request.policy episode)
    (ends : EndsWith episode.stop (lastObservation episode)) {record : RolloutRecord S}
    (saved : afterSaved controller request episode = .ok record) :
    Faithful controller request episode record := by
  rw [afterSaved] at saved
  split at saved
  next => cases saved
  next =>
    split at saved
    next => cases saved
    next => cases saved
    next submission _ =>
      split at saved
      next => cases saved
      next => cases saved
      next receipt grading graded =>
        split at saved
        next => cases saved
        next =>
          obtain ⟨rfl, honest⟩ := freeze_eq_ok saved
          have bound := gradeFrom_eq_ok graded
          refine ⟨honest, rfl, turns.numbered, fun reward member => ?_, ?_⟩
          · rw [recordOf, endingOf] at member ⊢
            split at member
            next given measured =>
              obtain rfl := Option.some.inj member
              exact ⟨submission, receipt, grading, rfl, bound, measured⟩
            next => split at member <;> cases member
          · rw [recordOf, endingOf]
            split
            next => exact .inr ends
            next =>
              split
              next => exact .inl (by simp [StopReason.requires])
              next => exact .inl (by simp [StopReason.requires])

theorem concluded_finish (turns : Turns request.policy episode)
    (ends : EndsWith episode.stop (lastObservation episode)) :
    Concluded controller request episode (finish controller request episode) := by
  rw [finish]
  split
  next => exact concluded_giveUp turns true _
  next =>
    split
    next => exact concluded_giveUp turns false _
    next record saved => exact afterSaved_eq_ok turns ends saved

/-! ### Runs -/

variable [Zero S] [Add S] [LE S] [DecidableLE S]

/-- Every run ends within its limits, and what it freezes is honest. Only the completion that
ends a run as invalid may be measured beyond the output limit. -/
theorem run_honest (controller : Controller S R) (request : RunInput S) :
    ∃ outcome episode,
      (∀ steps, request.limits.toolCalls < steps →
        run controller request steps = some (outcome, episode)) ∧
      (episode.measured.map Prod.fst).sum ≤ request.limits.inputTokens ∧
      (episode.measured.dropLast.map Prod.snd).sum ≤ request.limits.outputTokens ∧
      sampledTokens episode ≤ request.limits.outputTokens ∧
      episode.tools ≤ request.limits.toolCalls ∧
      Concluded controller request episode outcome ∧
      (request.task.kind.val ≠ "TaskBundle" → episode.measured = [] ∧ episode.tools = 0) := by
  have start : Ended request.policy request.limits (.start : Episode S) (some .recovery) :=
    running_start.fails _
  by_cases bundle : request.task.kind.val = "TaskBundle"
  · cases opens : openEpisode controller request with
    | error failure =>
        refine ⟨giveUp controller request false failure .start, .start, fun steps _ => ?_, start.input,
          start.output, start.sampled, start.tools, concluded_giveUp start.toTurns false failure,
          fun foreign => absurd bundle foreign⟩
        rw [run, opens]
    | ok opened =>
        have running : Running request.policy request.limits (.start : Episode S) := running_start
        obtain ⟨episode, failure, ends, ended⟩ :
            ∃ after failure, loop controller.toWorld request.policy request.limits
              (request.limits.toolCalls + 1) .start = some (after, failure) ∧
              Ended request.policy request.limits after failure :=
          running.loop (by simp [Episode.start])
        have longer : ∀ steps, request.limits.toolCalls < steps →
            loop controller.toWorld request.policy request.limits steps .start = some (episode, failure) := by
          intro steps enough
          obtain ⟨more, rfl⟩ := Nat.exists_eq_add_of_lt enough
          rw [Nat.add_right_comm]
          exact loop_mono more ends
        cases failure with
        | none =>
            refine ⟨finish controller request episode, episode, fun steps enough => ?_, ended.input,
              ended.output, ended.sampled, ended.tools,
              concluded_finish ended.toTurns (ended.settled rfl).2, fun foreign => absurd bundle foreign⟩
            simp only [run, opens, longer steps enough]
        | some failure =>
            refine ⟨giveUp controller request true failure episode, episode, fun steps enough => ?_,
              ended.input, ended.output, ended.sampled, ended.tools,
              concluded_giveUp ended.toTurns true failure, fun foreign => absurd bundle foreign⟩
            simp only [run, opens, longer steps enough]
  · refine ⟨giveUp controller request false (.value "expected a TaskBundle reference") .start, .start,
      fun steps _ => ?_, start.input, start.output, start.sampled, start.tools,
      concluded_giveUp start.toTurns false _, fun _ => ⟨rfl, rfl⟩⟩
    rw [run, openEpisode, if_pos bundle]

/-! ### A completion beyond its limit -/

def sampleRef (kind : Identifier) : ArtifactRef :=
  ⟨⟨String.ofList (List.replicate 64 'a'), isDigest_as⟩, kind, 1, .private, .json, firstSchema⟩

def sampleEvidence (exitStatus : Int) : EvidenceRecord where
  producer := ⟨"feature_rl.agents", by decide⟩
  command := [⟨"AgentRunner.run", by decide⟩]
  recordedAt := ⟨2025, 1, 1, 0, 0, 0, 0, by decide⟩
  exitStatus := exitStatus
  artifacts := [sampleRef ⟨"m7-controller-outcome", by decide⟩]
  revision := ⟨String.ofList (List.replicate 40 'a'), by decide⟩
  scope := .unitDiagnostic
  nonempty := by simp

def oneFloat : Binary64 := ⟨false, 2 ^ 52, -52, FeatureRl.oneFloat.canonical⟩

/-- A backend that returns three tokens where two are left. -/
def overlong : Controller Nat Unit where
  maxSeqLen := 100
  vocabSize := 10
  parseAction _ := .ok .submit
  executionRequest _ request := .ok request
  remaining _ := 60
  remainingForTool _ := 60
  admitted _ := .ok ()
  render _ := .ok [1]
  dispatch _ := .ok ()
  generate _ context _ := .ok ⟨"x", context, [1, 2, 3], none, "base", "stop"⟩
  account _ := .ok ()
  store _ := .ok ()
  execute _ _ := .error (.unavailable "no worker")
  openWorkspace := .ok ()
  close := .ok ()
  closeAgain := true
  resolveReleased _ := .ok ()
  submissionOf := .error (.unavailable "no source")
  grade _ _ := .ok none
  storeOutcome := .ok ()
  own := sampleEvidence

def overlongRequest : RunInput Nat where
  task := sampleRef ⟨"TaskBundle", by decide⟩
  policy := ⟨⟨"base", by decide⟩, oneFloat, oneFloat, false, none⟩
  limits := ⟨60, 60, 1, 10, 2⟩
  caseSeed := 0

/-- What the backend returned is measured before it is refused. -/
theorem measured_overlong : ∃ record episode, run overlong overlongRequest 2 = some (.frozen record, episode) ∧
    overlongRequest.limits.outputTokens < (episode.measured.map Prod.snd).sum := by
  refine ⟨recordOf overlong overlongRequest [] invalidEnding, { (.start : Episode Nat) with
    measured := [(1, 3)] }, ?_, by decide⟩
  rfl

end Agents

end FeatureRl
