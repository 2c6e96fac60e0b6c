import FeatureRl.Registry.Costs
import FeatureRl.Registry.JobSteps

/-! What one registry event does to completed jobs, to the records of attempts and to observations. -/

namespace FeatureRl

open Checked

namespace State

variable {sha256 : Bytes → Digest} {data : Json.Members} {state next : State} {action : Action}

/-- A completed job does not change. -/
theorem JobsChange.settled (change : JobsChange sha256 data action state next) {key : Digest} {job : JobRecord}
    (found : state.jobs.get? key = some job) (completed : job.state = .completed) :
    next.jobs.get? key = some job := by
  have elsewhere : ∀ {at_key : Digest} {other after : JobRecord}, state.jobs.get? at_key = some other →
      other.state ≠ .completed → (state.jobs.set at_key after).get? key = some job := by
    intro at_key other after present unfinished
    rw [Dict.get?_set_ne]
    · exact found
    · rintro rfl
      obtain rfl := Option.some.inj (found.symm.trans present)
      exact unfinished completed
  cases change with
  | same unchanged => rw [unchanged, found]
  | added enqueued decoded fresh known jobs =>
      rw [jobs, Dict.get?_set_ne]
      · exact found
      · rintro rfl
        rw [fresh] at found
        cases found
  | claimed claims decoded present queued below jobs =>
      rw [jobs]
      exact elsewhere present (by simp [queued])
  | moved present unfinished jobs spec jobId attempts =>
      rw [jobs]
      exact elsewhere present unfinished

/-- An event that neither enqueues nor claims jobs of a kind keeps their attempts. -/
theorem JobsChange.attempts_kept (change : JobsChange sha256 data action state next) {kind : JobSpec → Prop}
    (enqueues : action = .enqueue → ∀ spec, JobSpec.codec.validate (member data "spec") = some spec → ¬ kind spec)
    (claims : action = .claim → ∀ claim, Claim.codec.validate (member data "claim") = some claim →
      ∀ job, state.jobs.get? claim.jobId = some job → ¬ kind job.spec)
    {key : Digest} {after : JobRecord} (found : next.jobs.get? key = some after) (of_kind : kind after.spec) :
    ∃ before, state.jobs.get? key = some before ∧ after.spec = before.spec ∧ after.attempts = before.attempts := by
  cases change with
  | same unchanged => exact ⟨after, unchanged ▸ found, rfl, rfl⟩
  | @added spec enqueued decoded fresh known jobs =>
      rw [jobs, Dict.get?_set] at found
      split at found
      next =>
        obtain rfl := Option.some.inj found
        exact absurd of_kind (enqueues enqueued spec decoded)
      next => exact ⟨after, found, rfl, rfl⟩
  | @claimed claim job claimed decoded present queued below jobs =>
      rw [jobs, Dict.get?_set] at found
      split at found
      next =>
        obtain rfl := Option.some.inj found
        exact absurd of_kind (claims claimed claim decoded job present)
      next => exact ⟨after, found, rfl, rfl⟩
  | @moved at_key job changed present unfinished jobs spec jobId attempts =>
      rw [jobs, Dict.get?_set] at found
      split at found
      next same =>
        obtain rfl := Option.some.inj found
        exact ⟨job, same ▸ present, spec, attempts⟩
      next => exact ⟨after, found, rfl, rfl⟩

/-- An event that neither enqueues nor claims a job keeps its attempts. -/
theorem JobsChange.attempts_at (change : JobsChange sha256 data action state next) {key : Digest}
    (enqueues : action = .enqueue → ∀ spec, JobSpec.codec.validate (member data "spec") = some spec →
      jobKey sha256 spec ≠ key)
    (claims : action = .claim → ∀ claim, Claim.codec.validate (member data "claim") = some claim →
      claim.jobId ≠ key)
    {after : JobRecord} (found : next.jobs.get? key = some after) :
    ∃ before, state.jobs.get? key = some before ∧ after.spec = before.spec ∧ after.attempts = before.attempts := by
  cases change with
  | same unchanged => exact ⟨after, unchanged ▸ found, rfl, rfl⟩
  | @added spec enqueued decoded fresh known jobs =>
      rw [jobs, Dict.get?_set_ne _ _ (Ne.symm (enqueues enqueued spec decoded))] at found
      exact ⟨after, found, rfl, rfl⟩
  | @claimed claim job claimed decoded present queued below jobs =>
      rw [jobs, Dict.get?_set_ne _ _ (Ne.symm (claims claimed claim decoded))] at found
      exact ⟨after, found, rfl, rfl⟩
  | @moved at_key job changed present unfinished jobs spec jobId attempts =>
      rw [jobs, Dict.get?_set] at found
      split at found
      next same =>
        obtain rfl := Option.some.inj found
        exact ⟨job, same ▸ present, spec, attempts⟩
      next => exact ⟨after, found, rfl, rfl⟩

/-- What a completion says about the job it completes. -/
structure CompletedBy (state : State) (data : Json.Members) (key : Digest) (after : JobRecord) (claim : Claim)
    (result : OperationResult) : Prop where
  decoded : Claim.codec.validate (member data "claim") = some claim
  read : OperationResult.codec.validate (member data "result") = some result
  at_claim : claim.jobId = key
  result : after.result = some result
  before : ∃ job, state.jobs.get? key = some job ∧ after.spec = job.spec ∧ after.attempts = job.attempts ∧
    job.attempts.getLast? = some claim.attemptId

theorem Change.completed (named : Named state) (change : Change sha256 state data action next) {key : Digest}
    {after : JobRecord} (found : next.jobs.get? key = some after) (completed : after.state = .completed) :
    state.jobs.get? key = some after ∨
      (action = .complete ∧ ∃ claim result, CompletedBy state data key after claim result) := by
  have elsewhere : ∀ {at_key : Digest} {other : JobRecord}, (state.jobs.set at_key other).get? key = some after →
      other.state ≠ .completed → state.jobs.get? key = some after := by
    intro at_key other present unfinished
    rw [Dict.get?_set] at present
    split at present
    next =>
      obtain rfl := Option.some.inj present
      exact absurd completed unfinished
    next => exact present
  cases change with
  | enqueue guard => exact .inl (elsewhere found (by simp [newJob]))
  | claim guard => exact .inl (elsewhere found (by simp))
  | @abandon claim attempt job reason evidence guard =>
      refine .inl (elsewhere found ?_)
      simp only [interrupted]
      split <;> simp
  | retry guard => exact .inl (elsewhere found (by simp))
  | @complete claim attempt job result guard =>
      change (state.jobs.set job.jobId _).get? key = some after at found
      rw [named _ _ guard.owns.job_at, Dict.get?_set] at found
      split at found
      next same =>
        obtain rfl := Option.some.inj found
        exact .inr ⟨rfl, claim, result, guard.decoded, guard.read, same.symm, rfl, job, same ▸ guard.owns.job_at, rfl,
          rfl, guard.owns.last⟩
      next => exact .inl found
  | _ => exact .inl found

theorem Step.completed (named : Named state) (step : Step sha256 state data action next) {key : Digest}
    {after : JobRecord} (found : next.jobs.get? key = some after) (completed : after.state = .completed) :
    state.jobs.get? key = some after ∨
      (action = .complete ∧ ∃ claim result, CompletedBy state data key after claim result) := by
  cases step with
  | expand guard => exact .inl found
  | event installs change =>
      obtain ⟨merged, _, _, rfl⟩ := install_eq_ok.mp installs.installs
      have installed : Named { state with artifacts := merged } := named
      rcases Change.completed installed change found completed with before | ⟨completes, claim, result, by_claim⟩
      · exact .inl before
      · exact .inr ⟨completes, claim, result, by_claim.decoded, by_claim.read, by_claim.at_claim, by_claim.result,
          by_claim.before⟩

/-- A completion is by a claim whose job it completes with the given result. -/
theorem Step.complete_spec (named : Named state) (step : Step sha256 state data .complete next) {claim : Claim}
    (decoded : Claim.codec.validate (member data "claim") = some claim) {result : OperationResult}
    (read : OperationResult.codec.validate (member data "result") = some result) :
    ∃ after, next.jobs.get? claim.jobId = some after ∧ after.state = .completed ∧ after.result = some result ∧
      ∃ job, state.jobs.get? claim.jobId = some job ∧ after.spec = job.spec := by
  cases step with
  | event installs change =>
      obtain ⟨merged, _, _, rfl⟩ := install_eq_ok.mp installs.installs
      cases change with
      | @complete other attempt job found guard =>
          obtain rfl := Option.some.inj (decoded.symm.trans guard.decoded)
          obtain rfl := Option.some.inj (read.symm.trans guard.read)
          have at_job : job.jobId = claim.jobId := named _ _ guard.owns.job_at
          refine ⟨completedJob job result (wanted { state with artifacts := merged } claim.attemptId), ?_, rfl, rfl,
            job, guard.owns.job_at, rfl⟩
          simp only [at_job]
          exact Dict.get?_set_self _ _ _

/-- Every attempt is stored under its identity. -/
def AttemptsNamed (state : State) : Prop :=
  ∀ id attempt, state.attempts.get? id = some attempt → attempt.claim.attemptId = id

theorem Change.attemptsNamed (named : AttemptsNamed state) (change : Change sha256 state data action next) :
    AttemptsNamed next := by
  have set : ∀ {claim : Claim} {attempt : AttemptRecord}, attempt.claim = claim →
      ∀ id found, (state.attempts.set claim.attemptId attempt).get? id = some found →
        found.claim.attemptId = id := by
    intro claim attempt same id found present
    rw [Dict.get?_set] at present
    split at present
    next at_id =>
      obtain rfl := Option.some.inj present
      rw [same, at_id]
    next => exact named id found present
  cases change with
  | claim guard => exact set rfl
  | abandon guard => exact set guard.owns.claim_eq
  | complete guard => exact set guard.owns.claim_eq
  | _ => exact named

theorem AttemptsNamed.step (named : AttemptsNamed state) (step : Step sha256 state data action next) :
    AttemptsNamed next := by
  cases step with
  | expand guard => exact named
  | event installs change =>
      obtain ⟨merged, _, _, rfl⟩ := install_eq_ok.mp installs.installs
      have installed : AttemptsNamed { state with artifacts := merged } := named
      exact Change.attemptsNamed installed change

theorem attemptsNamed_of_run {limits : RegistryLimits} {events : List (Action × Json.Members)} {after : State}
    (ran : (State.empty limits).run sha256 events = .ok after) : AttemptsNamed after := by
  have start : AttemptsNamed (State.empty limits) := by
    intro id attempt found
    cases found
  refine run_induction (motive := fun _ reached => AttemptsNamed reached) start ?_ ran
  intro events before action data later _ named step
  exact named.step step

/-- An observation is old, or it was just reconciled. -/
theorem Step.observed (step : Step sha256 state data action next) {item : ObservationRecord}
    (present : item ∈ next.observations.values) :
    item ∈ state.observations.values ∨
      (action = .reconcile ∧ ∃ claim, Claim.codec.validate (member data "claim") = some claim ∧
        CostObservation.codec.validate (member data "observation") = some item.observation ∧
          item.attemptId = claim.attemptId) := by
  cases step with
  | expand guard => exact .inl present
  | event installs change =>
      obtain ⟨merged, _, _, rfl⟩ := install_eq_ok.mp installs.installs
      cases change with
      | @reconcile claim attempt job observation guard =>
          obtain ⟨key, found⟩ := Dict.mem_values.mp present
          simp only [Dict.get?_set] at found
          split at found
          next =>
            obtain rfl := Option.some.inj found
            exact .inr ⟨rfl, claim, guard.decoded, guard.observed, rfl⟩
          next => exact .inl (Dict.mem_values.mpr ⟨key, found⟩)
      | _ => exact .inl present

/-- What the accounting of a job lists are observations. -/
theorem accounting_observed {jobId : Digest} {report : AccountingReport} (reported : state.accounting jobId = .ok report)
    {item : ObservationRecord} (listed : item ∈ report.observations) : item ∈ state.observations.values := by
  simp only [accounting, bind_eq_ok, Except.ok.injEq] at reported
  obtain ⟨job, _, rfl⟩ := reported
  simp only [sortObservations, List.mem_insertionSort, List.mem_filter] at listed
  obtain ⟨key, found⟩ := Dict.mem_values.mp listed.1
  exact (latest_newest found).member

end State

end FeatureRl
