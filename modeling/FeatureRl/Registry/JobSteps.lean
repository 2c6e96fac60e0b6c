import FeatureRl.Registry.Quarantine

/-! What one registry event does to the job table. -/

namespace FeatureRl

open Checked

namespace State

variable {sha256 : Bytes → Digest} {data : Json.Members} {state next : State} {action : Action}

/-- Every job is stored under its identity. -/
def Named (state : State) : Prop := ∀ key job, state.jobs.get? key = some job → job.jobId = key

/-- The inputs of every job are registered. -/
def InputsRegistered (state : State) : Prop :=
  ∀ key job, state.jobs.get? key = some job → ∀ ref ∈ job.spec.inputs.val, state.registered ref = true

/-- The job table after an event: the same one, or one with a new job, with a claimed job, or with a job
that went on without a new attempt. -/
inductive JobsChange (sha256 : Bytes → Digest) (data : Json.Members) (action : Action) (state next : State) :
    Prop
  | same (unchanged : next.jobs = state.jobs)
  | added {spec : JobSpec} (enqueued : action = .enqueue)
      (decoded : JobSpec.codec.validate (member data "spec") = some spec)
      (fresh : state.jobs.get? (jobKey sha256 spec) = none)
      (known : ∀ ref ∈ spec.inputs.val, next.registered ref = true)
      (jobs : next.jobs = state.jobs.set (jobKey sha256 spec) (newJob (jobKey sha256 spec) spec))
  | claimed {claim : Claim} {job : JobRecord} (claims : action = .claim)
      (decoded : Claim.codec.validate (member data "claim") = some claim)
      (found : state.jobs.get? claim.jobId = some job) (queued : job.state = .queued)
      (below : job.attempts.length < job.spec.attemptLimit.val)
      (jobs : next.jobs = state.jobs.set claim.jobId
        { job with state := .running, attempts := job.attempts ++ [claim.attemptId] })
  | moved {key : Digest} {job after : JobRecord} (found : state.jobs.get? key = some job)
      (unfinished : job.state ≠ .completed) (jobs : next.jobs = state.jobs.set key after)
      (spec : after.spec = job.spec) (jobId : after.jobId = job.jobId) (attempts : after.attempts = job.attempts)

theorem Change.jobsChange (named : Named state) (change : Change sha256 state data action next) :
    JobsChange sha256 data action state next := by
  cases change with
  | register => exact .same rfl
  | enqueue guard =>
      refine .added rfl guard.decoded guard.fresh ?_ rfl
      obtain ⟨_, _, usable⟩ := jobUsable_eq_ok.mp guard.usable
      intro ref member
      exact (usable ref (List.mem_append_left _ member)).1
  | claim guard =>
      exact .claimed rfl guard.decoded guard.job_at guard.queued guard.below
        (congrArg (fun key => state.jobs.set key _) (named _ _ guard.job_at))
  | abandon guard =>
      exact .moved guard.owns.job_at (by simp [guard.owns.job_running])
        (congrArg (fun key => state.jobs.set key _) (named _ _ guard.owns.job_at)) rfl rfl rfl
  | retry guard =>
      exact .moved guard.job_at (by simp [guard.paused])
        (congrArg (fun key => state.jobs.set key _) (named _ _ guard.job_at)) rfl rfl rfl
  | reconcile guard => exact .same rfl
  | complete guard =>
      exact .moved guard.owns.job_at (by simp [guard.owns.job_running])
        (congrArg (fun key => state.jobs.set key _) (named _ _ guard.owns.job_at)) rfl rfl rfl
  | quarantine guard => exact .same rfl
  | lift guard => exact .same rfl

theorem Step.jobsChange (named : Named state) (step : Step sha256 state data action next) :
    JobsChange sha256 data action state next := by
  cases step with
  | expand guard => exact .same rfl
  | event installs change =>
      obtain ⟨merged, _, _, rfl⟩ := install_eq_ok.mp installs.installs
      have installed : JobsChange sha256 data action { state with artifacts := merged } next :=
        Change.jobsChange named change
      cases installed with
      | same unchanged => exact .same unchanged
      | added enqueued decoded fresh known jobs => exact .added enqueued decoded fresh known jobs
      | claimed claims decoded found queued below jobs => exact .claimed claims decoded found queued below jobs
      | moved found unfinished jobs spec jobId attempts =>
          exact .moved found unfinished jobs spec jobId attempts

/-- A job after an event is a new one, or it was there before with the same specification. -/
structure Follows (before after : JobRecord) : Prop where
  spec : after.spec = before.spec
  jobId : after.jobId = before.jobId
  completed : before.state = .completed → after.state = .completed
  attempts : before.attempts <+: after.attempts

theorem Follows.refl (job : JobRecord) : Follows job job := ⟨rfl, rfl, id, List.prefix_rfl⟩

theorem JobsChange.follows (change : JobsChange sha256 data action state next) {key : Digest}
    {after : JobRecord} (found : next.jobs.get? key = some after) :
    (∃ before, state.jobs.get? key = some before ∧ Follows before after) ∨
    (action = .enqueue ∧ state.jobs.get? key = none ∧
      ∃ spec, JobSpec.codec.validate (member data "spec") = some spec ∧ after = newJob key spec) := by
  cases change with
  | same unchanged => exact .inl ⟨after, unchanged ▸ found, .refl after⟩
  | @added spec enqueued decoded fresh known jobs =>
      rw [jobs, Dict.get?_set] at found
      split at found
      next same =>
        obtain rfl := Option.some.inj found
        exact .inr ⟨enqueued, same ▸ fresh, spec, decoded, by rw [same]⟩
      next => exact .inl ⟨after, found, .refl after⟩
  | @claimed claim job claims decoded present queued below jobs =>
      rw [jobs, Dict.get?_set] at found
      split at found
      next same =>
        obtain rfl := Option.some.inj found
        refine .inl ⟨job, same ▸ present, rfl, rfl, fun done => ?_, List.prefix_append _ _⟩
        rw [queued] at done
        cases done
      next => exact .inl ⟨after, found, .refl after⟩
  | @moved at_key job changed present unfinished jobs spec jobId attempts =>
      rw [jobs, Dict.get?_set] at found
      split at found
      next same =>
        obtain rfl := Option.some.inj found
        exact .inl ⟨job, same ▸ present, spec, jobId, fun done => absurd done unfinished,
          attempts ▸ List.prefix_rfl⟩
      next => exact .inl ⟨after, found, .refl after⟩

/-- No event removes a job. -/
theorem JobsChange.kept (change : JobsChange sha256 data action state next) {key : Digest}
    {before : JobRecord} (found : state.jobs.get? key = some before) :
    ∃ after, next.jobs.get? key = some after ∧ Follows before after := by
  have present : key ∈ next.jobs.keys := by
    have known := Dict.mem_keys.mpr ⟨before, found⟩
    cases change with
    | same unchanged => exact unchanged ▸ known
    | added _ _ _ _ jobs | claimed _ _ _ _ _ jobs | moved _ _ jobs _ _ _ =>
        rw [jobs, Dict.mem_keys_set]
        exact .inr known
  obtain ⟨after, now⟩ := Dict.mem_keys.mp present
  rcases change.follows now with ⟨earlier, same, follows⟩ | ⟨_, absent, _⟩
  · obtain rfl := Option.some.inj (found.symm.trans same)
    exact ⟨after, now, follows⟩
  · rw [absent] at found
    cases found

theorem Named.step (named : Named state) (step : Step sha256 state data action next) : Named next := by
  intro key after found
  rcases (Step.jobsChange named step).follows found with ⟨before, earlier, follows⟩ | ⟨_, _, spec, _, rfl⟩
  · rw [follows.jobId, named key before earlier]
  · rfl

theorem InputsRegistered.step (inputs : InputsRegistered state) (named : Named state)
    (step : Step sha256 state data action next) : InputsRegistered next := by
  intro key after found ref member
  have change := Step.jobsChange named step
  rcases change.follows found with ⟨before, earlier, follows⟩ | ⟨_, absent, spec, decoded, rfl⟩
  · exact step.registered (inputs key before earlier ref (follows.spec ▸ member))
  · cases change with
    | same unchanged => rw [unchanged, absent] at found; cases found
    | added _ decodedSpec _ known _ =>
        obtain rfl := Option.some.inj (decoded.symm.trans decodedSpec)
        exact known ref member
    | @claimed claim job _ _ present _ _ jobs =>
        rw [jobs, Dict.get?_set] at found
        split at found
        next same => rw [same, present] at absent; cases absent
        next => rw [absent] at found; cases found
    | @moved at_key job _ present _ jobs _ _ _ =>
        rw [jobs, Dict.get?_set] at found
        split at found
        next same => rw [same, present] at absent; cases absent
        next => rw [absent] at found; cases found

theorem Named.empty (limits : RegistryLimits) : Named (State.empty limits) := fun _ _ found => by cases found

theorem InputsRegistered.empty (limits : RegistryLimits) : InputsRegistered (State.empty limits) :=
  fun _ _ found => by cases found

theorem named_of_run {limits : RegistryLimits} {events : List (Action × Json.Members)}
    (ran : (State.empty limits).run sha256 events = .ok next) : Named next ∧ InputsRegistered next := by
  refine run_induction (motive := fun _ after => Named after ∧ InputsRegistered after)
    ⟨Named.empty limits, InputsRegistered.empty limits⟩ ?_ ran
  intro events before action data after _ ⟨named, inputs⟩ step
  exact ⟨named.step step, inputs.step named step⟩

/-- A claim takes a queued job below its attempt limit. -/
theorem Step.claim_spec (named : Named state) (step : Step sha256 state data .claim next) {claim : Claim}
    (decoded : Claim.codec.validate (member data "claim") = some claim) :
    ∃ job, state.jobs.get? claim.jobId = some job ∧ job.attempts.length < job.spec.attemptLimit.val ∧
      next.jobs.get? claim.jobId =
        some { job with state := .running, attempts := job.attempts ++ [claim.attemptId] } := by
  cases step with
  | event installs change =>
      obtain ⟨merged, _, _, rfl⟩ := install_eq_ok.mp installs.installs
      cases change with
      | @claim other job guard =>
          obtain rfl := Option.some.inj (decoded.symm.trans guard.decoded)
          refine ⟨job, guard.job_at, guard.below, ?_⟩
          rw [named _ _ guard.job_at, Dict.get?_set_self]

/-- An enqueue adds the job of its specification. -/
theorem Step.enqueue_spec (step : Step sha256 state data .enqueue next) {spec : JobSpec}
    (decoded : JobSpec.codec.validate (member data "spec") = some spec) :
    state.jobs.get? (jobKey sha256 spec) = none ∧
      next.jobs = state.jobs.set (jobKey sha256 spec) (newJob (jobKey sha256 spec) spec) := by
  cases step with
  | event installs change =>
      obtain ⟨merged, _, _, rfl⟩ := install_eq_ok.mp installs.installs
      cases change with
      | @enqueue other guard =>
          obtain rfl := Option.some.inj (decoded.symm.trans guard.decoded)
          exact ⟨guard.fresh, rfl⟩

end State

end FeatureRl
