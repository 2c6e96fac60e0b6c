import FeatureRl.Contracts.Samples
import FeatureRl.Registry.Transitions

/-!
The job and attempt state machine. Jobs and attempts stay linked to each other, each job's
attempts have the states that its own state implies, and the capacities are kept.
-/

namespace FeatureRl

open Checked

namespace State

variable {sha256 : Bytes → Digest} {documents : Set Bytes} {state next : State}
  {data : Json.Members}

/-! ### Attempt names -/

theorem attemptDocument_normal (jobId : Digest) (claimKey owner : Name) :
    (attemptDocument jobId claimKey owner).normal = true :=
  Json.normal_dict (by simp) (by simp [Json.normal])

theorem claimKey_of_attemptDocument {jobId otherId : Digest}
    {claimKey otherKey owner otherOwner : Name}
    (same : attemptDocument jobId claimKey owner = attemptDocument otherId otherKey otherOwner) :
    claimKey = otherKey := by
  have equal : Json.str claimKey.val = .str otherKey.val :=
    Json.dict_inj (by simp) (by simp) same "claim_key" (by simp) (by simp)
  exact Subtype.ext (Json.str.inj equal)

/-! ### Links between jobs and attempts -/

/-- Jobs list exactly the attempts that name them, under pairwise distinct claim keys. -/
structure Linked (sha256 : Bytes → Digest) (documents : Set Bytes) (state : State) : Prop where
  job_key : ∀ {key job}, state.jobs.get? key = some job → job.jobId = key
  attempt_key : ∀ {id attempt}, state.attempts.get? id = some attempt →
    attempt.claim.attemptId = id
  named : ∀ {id attempt}, state.attempts.get? id = some attempt →
    id = identity sha256
      (attemptDocument attempt.claim.jobId attempt.claim.claimKey attempt.claim.owner)
  hashed : ∀ {id attempt}, state.attempts.get? id = some attempt →
    (attemptDocument attempt.claim.jobId attempt.claim.claimKey attempt.claim.owner).canonical ∈
      documents
  owner : ∀ {id attempt}, state.attempts.get? id = some attempt →
    ∃ job, state.jobs.get? attempt.claim.jobId = some job ∧ id ∈ job.attempts
  listed : ∀ {key job id}, state.jobs.get? key = some job → id ∈ job.attempts →
    ∃ attempt, state.attempts.get? id = some attempt ∧ attempt.claim.jobId = key
  distinct : ∀ {key job}, state.jobs.get? key = some job → job.attempts.Nodup
  claim_keys : ∀ {id other attempt another}, state.attempts.get? id = some attempt →
    state.attempts.get? other = some another →
    attempt.claim.claimKey = another.claim.claimKey → id = other

namespace Linked

theorem empty (limits : RegistryLimits) : Linked sha256 documents (State.empty limits) := by
  constructor <;> simp [State.empty]

/-- An attempt is listed by one job only. -/
theorem job_eq (linked : Linked sha256 documents state) {key other id : Digest}
    {job another : JobRecord} (at_key : state.jobs.get? key = some job)
    (at_other : state.jobs.get? other = some another) (member : id ∈ job.attempts)
    (shared : id ∈ another.attempts) : key = other := by
  obtain ⟨attempt, found, names⟩ := linked.listed at_key member
  obtain ⟨again, refound, renames⟩ := linked.listed at_other shared
  obtain rfl : attempt = again := by rw [found] at refound; exact Option.some.inj refound
  exact names.symm.trans renames

theorem setJob (linked : Linked sha256 documents state) {key : Digest} {job changed : JobRecord}
    (at_key : state.jobs.get? key = some job) (same_id : changed.jobId = job.jobId)
    (same_attempts : changed.attempts = job.attempts) :
    Linked sha256 documents { state with jobs := state.jobs.set key changed } where
  job_key {other found} at_other := by
    simp only [Dict.get?_set] at at_other
    split at at_other
    next same => rw [← Option.some.inj at_other, same_id, linked.job_key at_key, same]
    next => exact linked.job_key at_other
  attempt_key := linked.attempt_key
  named := linked.named
  hashed := linked.hashed
  owner {id attempt} found := by
    obtain ⟨holder, at_holder, member⟩ := linked.owner found
    simp only [Dict.get?_set]
    split
    next same =>
      obtain rfl : holder = job := by rw [same, at_key] at at_holder; exact (Option.some.inj at_holder).symm
      exact ⟨changed, rfl, same_attempts ▸ member⟩
    next => exact ⟨holder, at_holder, member⟩
  listed {other found id} at_other member := by
    simp only [Dict.get?_set] at at_other
    split at at_other
    next same =>
      subst same
      obtain rfl := Option.some.inj at_other
      exact linked.listed at_key (same_attempts ▸ member)
    next => exact linked.listed at_other member
  distinct {other found} at_other := by
    simp only [Dict.get?_set] at at_other
    split at at_other
    next => rw [← Option.some.inj at_other, same_attempts]; exact linked.distinct at_key
    next => exact linked.distinct at_other
  claim_keys := linked.claim_keys

theorem setAttempt (linked : Linked sha256 documents state) {id : Digest}
    {attempt changed : AttemptRecord} (at_id : state.attempts.get? id = some attempt)
    (same_claim : changed.claim = attempt.claim) :
    Linked sha256 documents { state with attempts := state.attempts.set id changed } := by
  -- Every field about attempts reads only the claim of a record, which is the same.
  have old : ∀ {other found}, (state.attempts.set id changed).get? other = some found →
      ∃ before, state.attempts.get? other = some before ∧ found.claim = before.claim := by
    intro other found at_other
    rw [Dict.get?_set] at at_other
    split at at_other
    next same =>
      subst same
      exact ⟨attempt, at_id, Option.some.inj at_other ▸ same_claim⟩
    next => exact ⟨found, at_other, rfl⟩
  constructor
  · exact linked.job_key
  · intro other found at_other
    obtain ⟨before, at_before, same⟩ := old at_other
    rw [same]
    exact linked.attempt_key at_before
  · intro other found at_other
    obtain ⟨before, at_before, same⟩ := old at_other
    rw [same]
    exact linked.named at_before
  · intro other found at_other
    obtain ⟨before, at_before, same⟩ := old at_other
    rw [same]
    exact linked.hashed at_before
  · intro other found at_other
    obtain ⟨before, at_before, same⟩ := old at_other
    rw [same]
    exact linked.owner at_before
  · intro key job other at_key member
    obtain ⟨before, at_before, names⟩ := linked.listed at_key member
    simp only [Dict.get?_set]
    split
    next same =>
      subst same
      obtain rfl : attempt = before := by rw [at_id] at at_before; exact Option.some.inj at_before
      exact ⟨changed, rfl, same_claim ▸ names⟩
    next => exact ⟨before, at_before, names⟩
  · exact linked.distinct
  · intro first second found another at_first at_second same
    obtain ⟨before, at_before, claims⟩ := old at_first
    obtain ⟨earlier, at_earlier, reclaims⟩ := old at_second
    rw [claims, reclaims] at same
    exact linked.claim_keys at_before at_earlier same

theorem addJob (linked : Linked sha256 documents state) {key : Digest} (spec : JobSpec)
    (fresh : state.jobs.get? key = none) :
    Linked sha256 documents { state with jobs := state.jobs.set key (newJob key spec) } where
  job_key {other found} at_other := by
    simp only [Dict.get?_set] at at_other
    split at at_other
    next same => rw [← Option.some.inj at_other, same]; rfl
    next => exact linked.job_key at_other
  attempt_key := linked.attempt_key
  named := linked.named
  hashed := linked.hashed
  owner {id attempt} found := by
    obtain ⟨holder, at_holder, member⟩ := linked.owner found
    have different : attempt.claim.jobId ≠ key := by
      intro same
      rw [same, fresh] at at_holder
      cases at_holder
    exact ⟨holder, by rw [Dict.get?_set_ne _ _ different]; exact at_holder, member⟩
  listed {other found id} at_other member := by
    simp only [Dict.get?_set] at at_other
    split at at_other
    next => rw [← Option.some.inj at_other] at member; cases member
    next => exact linked.listed at_other member
  distinct {other found} at_other := by
    simp only [Dict.get?_set] at at_other
    split at at_other
    next => rw [← Option.some.inj at_other]; exact List.nodup_nil
    next => exact linked.distinct at_other
  claim_keys := linked.claim_keys

/-- A name that hashes a fresh claim key is fresh itself. -/
theorem attempt_fresh (linked : Linked sha256 documents state)
    (collisionFree : Set.InjOn sha256 documents) {claim : Claim} {job : JobRecord}
    (guard : Claims sha256 state data claim job)
    (hashed : (attemptDocument claim.jobId claim.claimKey claim.owner).canonical ∈ documents) :
    state.attempts.get? claim.attemptId = none := by
  cases found : state.attempts.get? claim.attemptId with
  | none => rfl
  | some attempt =>
      have digests := linked.named found
      rw [guard.identified, linked.job_key guard.job_at] at digests
      have documents_eq := Json.canonical_injective (attemptDocument_normal _ _ _)
        (attemptDocument_normal _ _ _) (collisionFree hashed (linked.hashed found) digests)
      have keys := claimKey_of_attemptDocument documents_eq
      exact absurd keys.symm (guard.key_fresh attempt (Dict.mem_values.mpr ⟨_, found⟩))

theorem addAttempt (linked : Linked sha256 documents state)
    (collisionFree : Set.InjOn sha256 documents) {claim : Claim} {job : JobRecord}
    (guard : Claims sha256 state data claim job)
    (hashed : (attemptDocument claim.jobId claim.claimKey claim.owner).canonical ∈ documents)
    {own : Digest} (owned : own = claim.jobId) :
    Linked sha256 documents { state with
      attempts := state.attempts.set claim.attemptId ⟨claim, .running, none, Refs.empty⟩
      jobs := state.jobs.set own
        { job with state := .running, attempts := job.attempts ++ [claim.attemptId] } } := by
  subst owned
  have fresh := linked.attempt_fresh collisionFree guard hashed
  have stays : ∀ {id attempt}, state.attempts.get? id = some attempt → id ≠ claim.attemptId := by
    rintro id attempt found rfl
    rw [fresh] at found
    cases found
  have key := linked.job_key guard.job_at
  have name := guard.identified
  rw [key] at name
  constructor
  · intro other found at_other
    simp only [Dict.get?_set] at at_other
    split at at_other
    next same => rw [← Option.some.inj at_other, same, key]
    next => exact linked.job_key at_other
  · intro id attempt found
    simp only [Dict.get?_set] at found
    split at found
    next same => rw [← Option.some.inj found, same]
    next => exact linked.attempt_key found
  · intro id attempt found
    simp only [Dict.get?_set] at found
    split at found
    next same => rw [← Option.some.inj found, same]; exact name
    next => exact linked.named found
  · intro id attempt found
    simp only [Dict.get?_set] at found
    split at found
    next => rw [← Option.some.inj found]; exact hashed
    next => exact linked.hashed found
  · intro id attempt found
    simp only [Dict.get?_set] at found
    split at found
    next same =>
      rw [← Option.some.inj found]
      exact ⟨_, Dict.get?_set_self _ _ _, by simp [same]⟩
    next =>
      obtain ⟨holder, at_holder, member⟩ := linked.owner found
      simp only [Dict.get?_set]
      split
      next same =>
        rw [same, guard.job_at] at at_holder
        obtain rfl := Option.some.inj at_holder
        exact ⟨_, rfl, List.mem_append_left _ member⟩
      next => exact ⟨holder, at_holder, member⟩
  · intro other found id at_other member
    simp only [Dict.get?_set] at at_other
    split at at_other
    next same =>
      rw [← Option.some.inj at_other] at member
      rcases List.mem_append.mp member with earlier | new
      · obtain ⟨attempt, at_id, names⟩ := linked.listed guard.job_at earlier
        exact ⟨attempt, by rw [Dict.get?_set_ne _ _ (stays at_id)]; exact at_id, same ▸ names⟩
      · rw [List.mem_singleton.mp new]
        exact ⟨_, Dict.get?_set_self _ _ _, same.symm⟩
    next =>
      obtain ⟨attempt, at_id, names⟩ := linked.listed at_other member
      exact ⟨attempt, by rw [Dict.get?_set_ne _ _ (stays at_id)]; exact at_id, names⟩
  · intro other found at_other
    simp only [Dict.get?_set] at at_other
    split at at_other
    next =>
      rw [← Option.some.inj at_other]
      refine List.nodup_append.mpr ⟨linked.distinct guard.job_at, List.nodup_singleton _, ?_⟩
      intro id member last single
      obtain ⟨attempt, at_id, _⟩ := linked.listed guard.job_at member
      exact List.mem_singleton.mp single ▸ stays at_id
    next => exact linked.distinct at_other
  · intro first second attempt another at_first at_second same
    simp only [Dict.get?_set] at at_first at_second
    split at at_first
    next here =>
      split at at_second
      next there => exact here.trans there.symm
      next =>
        rw [← Option.some.inj at_first] at same
        exact absurd same.symm (guard.key_fresh another (Dict.mem_values.mpr ⟨_, at_second⟩))
    next =>
      split at at_second
      next =>
        rw [← Option.some.inj at_second] at same
        exact absurd same (guard.key_fresh attempt (Dict.mem_values.mpr ⟨_, at_first⟩))
      next => exact linked.claim_keys at_first at_second same

end Linked

/-! ### Attempt states -/

/-- All of these attempts were abandoned. -/
def Abandoned (attempts : Dict Digest AttemptRecord) (ids : List Digest) : Prop :=
  ∀ id ∈ ids, ∃ attempt, attempts.get? id = some attempt ∧ attempt.state = .abandoned

/-- The last attempt is in this state and all earlier ones were abandoned. -/
def EndsIn (attempts : Dict Digest AttemptRecord) (ids : List Digest) (last : AttemptState) :
    Prop :=
  ∃ earlier id attempt, ids = earlier ++ [id] ∧ Abandoned attempts earlier ∧
    attempts.get? id = some attempt ∧ attempt.state = last

/-- The attempts and the result that a job's state stands for. -/
def Shaped (attempts : Dict Digest AttemptRecord) (job : JobRecord) : Prop :=
  match job.state with
  | .queued => Abandoned attempts job.attempts ∧
      job.attempts.length < job.spec.attemptLimit.val ∧ job.result = none
  | .running => EndsIn attempts job.attempts .running ∧
      job.attempts.length ≤ job.spec.attemptLimit.val ∧ job.result = none
  | .paused => Abandoned attempts job.attempts ∧ 0 < job.attempts.length ∧
      job.attempts.length < job.spec.attemptLimit.val ∧ job.result = none
  | .exhausted => Abandoned attempts job.attempts ∧
      job.attempts.length = job.spec.attemptLimit.val ∧ job.result = none
  | .completed => EndsIn attempts job.attempts .completed ∧
      job.attempts.length ≤ job.spec.attemptLimit.val ∧ job.result.isSome = true

theorem Abandoned.frame {attempts changed : Dict Digest AttemptRecord} {ids : List Digest}
    (abandoned : Abandoned attempts ids)
    (agree : ∀ id ∈ ids, changed.get? id = attempts.get? id) : Abandoned changed ids := by
  intro id member
  rw [agree id member]
  exact abandoned id member

theorem EndsIn.frame {attempts changed : Dict Digest AttemptRecord} {ids : List Digest}
    {last : AttemptState} (ends : EndsIn attempts ids last)
    (agree : ∀ id ∈ ids, changed.get? id = attempts.get? id) : EndsIn changed ids last := by
  obtain ⟨earlier, id, attempt, rfl, abandoned, found, same⟩ := ends
  refine ⟨earlier, id, attempt, rfl, ?_, ?_, same⟩
  · exact abandoned.frame fun other member => agree other (List.mem_append_left _ member)
  · rw [agree id (by simp)]
    exact found

theorem Shaped.frame {attempts changed : Dict Digest AttemptRecord} {job : JobRecord}
    (shaped : Shaped attempts job)
    (agree : ∀ id ∈ job.attempts, changed.get? id = attempts.get? id) : Shaped changed job := by
  unfold Shaped at shaped ⊢
  split at shaped
  · exact ⟨shaped.1.frame agree, shaped.2⟩
  · exact ⟨shaped.1.frame agree, shaped.2⟩
  · exact ⟨shaped.1.frame agree, shaped.2⟩
  · exact ⟨shaped.1.frame agree, shaped.2⟩
  · exact ⟨shaped.1.frame agree, shaped.2⟩

/-- Ending the running attempt leaves the earlier ones as they are. -/
theorem EndsIn.settle {attempts : Dict Digest AttemptRecord} {ids : List Digest}
    {before : AttemptState} (ends : EndsIn attempts ids before) (distinct : ids.Nodup)
    {id : Digest} (last : ids.getLast? = some id) (settled : AttemptRecord) :
    EndsIn (attempts.set id settled) ids settled.state := by
  obtain ⟨earlier, final, attempt, rfl, abandoned, _, _⟩ := ends
  obtain rfl : final = id := by simpa using last
  refine ⟨earlier, final, settled, rfl, abandoned.frame ?_, Dict.get?_set_self _ _ _, rfl⟩
  rintro other member
  refine Dict.get?_set_ne _ _ ?_
  rintro rfl
  exact (List.nodup_append.mp distinct).2.2 other member other (by simp) rfl

theorem EndsIn.abandoned {attempts : Dict Digest AttemptRecord} {ids : List Digest}
    (ends : EndsIn attempts ids .abandoned) : Abandoned attempts ids := by
  obtain ⟨earlier, final, attempt, rfl, abandoned, found, same⟩ := ends
  intro id member
  rcases List.mem_append.mp member with before | last
  · exact abandoned id before
  · exact List.mem_singleton.mp last ▸ ⟨attempt, found, same⟩

theorem EndsIn.length_pos {attempts : Dict Digest AttemptRecord} {ids : List Digest}
    {last : AttemptState} (ends : EndsIn attempts ids last) : 0 < ids.length := by
  obtain ⟨earlier, _, _, rfl, _⟩ := ends
  simp

/-! ### Capacities -/

structure WithinLimits (state : State) : Prop where
  attempts : ∀ {key job}, state.jobs.get? key = some job →
    job.spec.attemptLimit.val ≤ state.limits.maxAttemptsPerJob.val
  jobs : state.jobs.size ≤ state.limits.maxJobs.val
  active : state.jobs.values.countP (fun job => job.state.active) ≤
    state.limits.maxActiveJobs.val

theorem WithinLimits.setJob (within : WithinLimits state) {key : Digest}
    {job changed : JobRecord} (at_key : state.jobs.get? key = some job)
    (same_spec : changed.spec = job.spec)
    (calmer : changed.state.active = true → job.state.active = true) :
    WithinLimits { state with jobs := state.jobs.set key changed } where
  attempts {other found} at_other := by
    simp only [Dict.get?_set] at at_other
    split at at_other
    next => rw [← Option.some.inj at_other, same_spec]; exact within.attempts at_key
    next => exact within.attempts at_other
  jobs := by
    rw [Dict.size_set_of_present at_key]
    exact within.jobs
  active := by
    have moved := Dict.countP_values_set_of_present (fun job => job.state.active) at_key changed
    have bound := within.active
    change (state.jobs.set key changed).values.countP _ ≤ state.limits.maxActiveJobs.val
    by_cases busy : changed.state.active = true
    · simp only [busy, calmer busy, if_true] at moved
      omega
    · simp only [busy, Bool.false_eq_true, if_false] at moved
      omega

theorem WithinLimits.addJob (within : WithinLimits state) {spec : JobSpec}
    (guard : Enqueues sha256 state data spec) :
    WithinLimits { state with
      jobs := state.jobs.set (jobKey sha256 spec) (newJob (jobKey sha256 spec) spec) } where
  attempts {other found} at_other := by
    simp only [Dict.get?_set] at at_other
    split at at_other
    next => rw [← Option.some.inj at_other]; exact guard.bounded
    next => exact within.attempts at_other
  jobs := by
    rw [Dict.size_set_of_absent guard.fresh]
    exact guard.room
  active := by
    have queued : (newJob (jobKey sha256 spec) spec).state.active = true := rfl
    rw [Dict.countP_values_set_of_absent _ guard.fresh, if_pos queued]
    exact guard.slot

theorem WithinLimits.expand (within : WithinLimits state) {limits : RegistryLimits}
    (grows : state.limits.Le limits) : WithinLimits { state with limits } := by
  obtain ⟨policy, capacities⟩ := grows
  simp only [RegistryLimits.policy, Prod.mk.injEq] at policy
  simp only [RegistryLimits.capacities, List.forall₂_cons] at capacities
  exact ⟨fun at_key => policy.2.1 ▸ within.attempts at_key, within.jobs.trans capacities.1,
    policy.1 ▸ within.active⟩

/-! ### The invariant -/

/-- Jobs and attempts are linked, shaped by their states and within the limits. -/
structure JobInvariant (sha256 : Bytes → Digest) (documents : Set Bytes) (state : State) :
    Prop extends Linked sha256 documents state, WithinLimits state where
  shaped : ∀ {key job}, state.jobs.get? key = some job → Shaped state.attempts job

namespace JobInvariant

theorem empty (limits : RegistryLimits) : JobInvariant sha256 documents (State.empty limits) where
  toLinked := Linked.empty limits
  attempts found := by cases found
  jobs := Nat.zero_le _
  active := Nat.zero_le _
  shaped found := by cases found

/-- The records of the other jobs are shaped after one job and its last attempt changed. -/
theorem shaped_elsewhere (invariant : JobInvariant sha256 documents state) {key id : Digest}
    (changed : JobRecord) (record : AttemptRecord)
    (elsewhere : ∀ {other job}, other ≠ key → state.jobs.get? other = some job →
      id ∉ job.attempts)
    (here : Shaped (state.attempts.set id record) changed) {other : Digest} {job : JobRecord}
    (at_other : (state.jobs.set key changed).get? other = some job) :
    Shaped (state.attempts.set id record) job := by
  rw [Dict.get?_set] at at_other
  split at at_other
  next => exact Option.some.inj at_other ▸ here
  next different =>
    refine (invariant.shaped at_other).frame fun listed member => Dict.get?_set_ne _ _ ?_
    rintro rfl
    exact elsewhere different at_other member

/-- Only the job that owns a claim lists its attempt. -/
theorem owned_elsewhere (invariant : JobInvariant sha256 documents state) {claim : Claim}
    {attempt : AttemptRecord} {job : JobRecord} (owns : Owns state claim attempt job)
    {other : Digest} {another : JobRecord} (different : other ≠ claim.jobId)
    (at_other : state.jobs.get? other = some another) : claim.attemptId ∉ another.attempts :=
  fun member => different (invariant.job_eq at_other owns.job_at member
    (List.mem_of_getLast? owns.last))

/-- A job is stored under its own identity. -/
theorem own (invariant : JobInvariant sha256 documents state) {key : Digest} {job : JobRecord}
    (at_key : state.jobs.get? key = some job) : state.jobs.get? job.jobId = some job := by
  rw [invariant.job_key at_key]
  exact at_key

/-- The attempts of a running job. -/
theorem running (invariant : JobInvariant sha256 documents state) {key : Digest} {job : JobRecord}
    (at_key : state.jobs.get? key = some job) (running : job.state = .running) :
    EndsIn state.attempts job.attempts .running ∧
      job.attempts.length ≤ job.spec.attemptLimit.val ∧ job.result = none := by
  have shaped := invariant.shaped at_key
  rwa [Shaped, running] at shaped

theorem enqueue (invariant : JobInvariant sha256 documents state) {spec : JobSpec}
    (guard : Enqueues sha256 state data spec) :
    JobInvariant sha256 documents { state with
      jobs := state.jobs.set (jobKey sha256 spec) (newJob (jobKey sha256 spec) spec) } where
  toLinked := invariant.toLinked.addJob spec guard.fresh
  toWithinLimits := invariant.toWithinLimits.addJob guard
  shaped {other job} at_other := by
    simp only [Dict.get?_set] at at_other
    split at at_other
    next =>
      obtain rfl := Option.some.inj at_other
      exact ⟨fun id member => absurd member List.not_mem_nil, spec.attemptLimit.low_le, rfl⟩
    next => exact invariant.shaped at_other

theorem claim (invariant : JobInvariant sha256 documents state)
    (collisionFree : Set.InjOn sha256 documents) {claim : Claim} {job : JobRecord}
    (guard : Claims sha256 state data claim job)
    (hashed : (attemptDocument claim.jobId claim.claimKey claim.owner).canonical ∈ documents) :
    JobInvariant sha256 documents { state with
      attempts := state.attempts.set claim.attemptId ⟨claim, .running, none, Refs.empty⟩
      jobs := state.jobs.set job.jobId
        { job with state := .running, attempts := job.attempts ++ [claim.attemptId] } } := by
  have fresh := invariant.attempt_fresh collisionFree guard hashed
  have unlisted : ∀ {other another}, state.jobs.get? other = some another →
      claim.attemptId ∉ another.attempts := by
    intro other another at_other member
    obtain ⟨attempt, found, _⟩ := invariant.listed at_other member
    rw [fresh] at found
    cases found
  have queued := invariant.shaped guard.job_at
  rw [Shaped, guard.queued] at queued
  have within : WithinLimits { state with
      jobs := state.jobs.set job.jobId
        { job with state := .running, attempts := job.attempts ++ [claim.attemptId] } } :=
    invariant.toWithinLimits.setJob (invariant.own guard.job_at) rfl fun _ => by
      rw [guard.queued]; rfl
  refine ⟨invariant.addAttempt collisionFree guard hashed (invariant.job_key guard.job_at),
    ⟨within.attempts, within.jobs, within.active⟩,
    invariant.shaped_elsewhere _ _ (fun _ at_other => unlisted at_other) ?_⟩
  refine ⟨⟨job.attempts, claim.attemptId, _, rfl, ?_, Dict.get?_set_self _ _ _, rfl⟩, ?_,
    queued.2.2⟩
  · refine queued.1.frame fun id member => Dict.get?_set_ne _ _ ?_
    rintro rfl
    exact unlisted guard.job_at member
  · simp only [List.length_append, List.length_singleton]
    exact guard.below

/-- Ending the running attempt of a job. -/
theorem settle (invariant : JobInvariant sha256 documents state) {claim : Claim}
    {attempt settled : AttemptRecord} {job changed : JobRecord}
    (owns : Owns state claim attempt job) (same_claim : settled.claim = attempt.claim)
    (same_id : changed.jobId = job.jobId) (same_spec : changed.spec = job.spec)
    (same_attempts : changed.attempts = job.attempts)
    (here : EndsIn (state.attempts.set claim.attemptId settled) job.attempts settled.state →
      Shaped (state.attempts.set claim.attemptId settled) changed) :
    JobInvariant sha256 documents { state with
      attempts := state.attempts.set claim.attemptId settled
      jobs := state.jobs.set job.jobId changed } := by
  have ends := (invariant.running owns.job_at owns.job_running).1
  have own := invariant.own owns.job_at
  have within := invariant.toWithinLimits.setJob own same_spec fun _ => by
    rw [owns.job_running]; rfl
  refine ⟨(invariant.setJob own same_id same_attempts).setAttempt owns.attempt_at same_claim,
    ⟨within.attempts, within.jobs, within.active⟩,
    invariant.shaped_elsewhere _ _ (fun different at_other => ?_) (here ?_)⟩
  · exact invariant.owned_elsewhere owns (invariant.job_key owns.job_at ▸ different) at_other
  · exact ends.settle (invariant.distinct owns.job_at) owns.last settled

theorem abandon (invariant : JobInvariant sha256 documents state) {claim : Claim}
    {attempt : AttemptRecord} {job : JobRecord} {reason : Option Reason} {evidence : Refs}
    (guard : Abandons state data claim attempt job reason evidence) :
    JobInvariant sha256 documents { state with
      attempts := state.attempts.set claim.attemptId
        { attempt with state := .abandoned, reason, evidence }
      jobs := state.jobs.set job.jobId { job with state := interrupted job } } := by
  obtain ⟨_, bounded, pending⟩ := invariant.running guard.owns.job_at guard.owns.job_running
  refine invariant.settle guard.owns rfl rfl rfl rfl fun ends => ?_
  have positive := ends.length_pos
  unfold Shaped interrupted
  by_cases full : job.spec.attemptLimit.val ≤ job.attempts.length
  · simp only [full, if_true]
    exact ⟨ends.abandoned, Nat.le_antisymm bounded full, pending⟩
  · simp only [full, if_false]
    exact ⟨ends.abandoned, positive, Nat.lt_of_not_le full, pending⟩

theorem retry (invariant : JobInvariant sha256 documents state) {key : Digest} {job : JobRecord}
    (guard : Retries state data key job) :
    JobInvariant sha256 documents { state with
      jobs := state.jobs.set job.jobId { job with state := .queued } } := by
  have paused := invariant.shaped guard.job_at
  rw [Shaped, guard.paused] at paused
  have own := invariant.own guard.job_at
  refine ⟨invariant.setJob own rfl rfl, invariant.toWithinLimits.setJob own rfl
    fun _ => by rw [guard.paused]; rfl, ?_⟩
  intro other found at_other
  simp only [Dict.get?_set] at at_other
  split at at_other
  next =>
    obtain rfl := Option.some.inj at_other
    exact ⟨paused.1, paused.2.2⟩
  next => exact invariant.shaped at_other

theorem complete (invariant : JobInvariant sha256 documents state) {claim : Claim}
    {attempt : AttemptRecord} {job : JobRecord} {result : OperationResult}
    (guard : Completes state data claim attempt job result) :
    JobInvariant sha256 documents { state with
      attempts := state.attempts.set claim.attemptId { attempt with state := .completed }
      jobs := state.jobs.set job.jobId
        (completedJob job result (state.wanted claim.attemptId)) } := by
  obtain ⟨_, bounded, _⟩ := invariant.running guard.owns.job_at guard.owns.job_running
  exact invariant.settle guard.owns rfl rfl rfl rfl fun ends => ⟨ends, bounded, rfl⟩

/-- The invariant reads only the jobs, the attempts and the limits. -/
theorem frame (invariant : JobInvariant sha256 documents state)
    (artifacts : Dict Digest ArtifactRecord) (observations : Dict Digest ObservationRecord)
    (notices : Dict Name QuarantineNotice) :
    JobInvariant sha256 documents { state with artifacts, observations, notices } :=
  ⟨⟨invariant.job_key, invariant.attempt_key, invariant.named, invariant.hashed, invariant.owner,
    invariant.listed, invariant.distinct, invariant.claim_keys⟩,
    ⟨invariant.attempts, invariant.jobs, invariant.active⟩, invariant.shaped⟩

theorem expand (invariant : JobInvariant sha256 documents state) {limits : RegistryLimits}
    (grows : state.limits.Le limits) : JobInvariant sha256 documents { state with limits } :=
  ⟨⟨invariant.job_key, invariant.attempt_key, invariant.named, invariant.hashed, invariant.owner,
    invariant.listed, invariant.distinct, invariant.claim_keys⟩,
    invariant.toWithinLimits.expand grows, invariant.shaped⟩

theorem change (invariant : JobInvariant sha256 documents state)
    (collisionFree : Set.InjOn sha256 documents) {action : Action}
    (hashed : ∀ document ∈ hashedDocument action data, document.canonical ∈ documents)
    (change : Change sha256 state data action next) : JobInvariant sha256 documents next := by
  cases change with
  | register => exact invariant
  | enqueue guard => exact invariant.enqueue guard
  | claim guard =>
      exact invariant.claim collisionFree guard (hashed _ (by simp [hashedDocument, guard.decoded]))
  | abandon guard => exact invariant.abandon guard
  | retry guard => exact invariant.retry guard
  | reconcile guard => exact invariant.frame _ _ _
  | complete guard => exact invariant.complete guard
  | quarantine guard => exact invariant.frame _ _ _
  | lift guard => exact invariant.frame _ _ _

theorem step (invariant : JobInvariant sha256 documents state)
    (collisionFree : Set.InjOn sha256 documents) {action : Action}
    (hashed : ∀ document ∈ hashedDocument action data, document.canonical ∈ documents)
    (step : Step sha256 state data action next) : JobInvariant sha256 documents next := by
  cases step with
  | expand guard => exact invariant.expand (guard.contiguous ▸ LimitExpansion.le _)
  | event installs change =>
      obtain ⟨artifacts, _, _, rfl⟩ := install_eq_ok.mp installs.installs
      exact (invariant.frame artifacts _ _).change collisionFree hashed change

/-- Every run keeps the invariant. -/
theorem run {events : List (Action × Json.Members)} (start : JobInvariant sha256 documents state)
    (collisionFree : Set.InjOn sha256 documents) (hashed : hashedBy events ⊆ documents)
    (ran : state.run sha256 events = .ok next) : JobInvariant sha256 documents next := by
  refine run_induction (motive := fun events after => hashedBy events ⊆ documents →
    JobInvariant sha256 documents after) (fun _ => start) ?_ ran hashed
  intro events before action data after _ ih step within
  obtain ⟨earlier, last⟩ := hashedBy_concat_subset within
  exact (ih earlier).step collisionFree last step

end JobInvariant

/-! ### Finished jobs -/

/-- A state that no event leaves. -/
def Finished (job : JobRecord) : Prop := job.state = .completed ∨ job.state = .exhausted

/-- The job and the attempts it lists have the same records in both states. -/
structure Kept (before after : State) (key : Digest) (job : JobRecord) : Prop where
  job_at : after.jobs.get? key = some job
  attempts_eq : ∀ id ∈ job.attempts, after.attempts.get? id = before.attempts.get? id

theorem Kept.trans {middle : State} {key : Digest} {job : JobRecord}
    (first : Kept state middle key job) (second : Kept middle next key job) :
    Kept state next key job :=
  ⟨second.job_at, fun id member => (second.attempts_eq id member).trans
    (first.attempts_eq id member)⟩

/-- Changing another job and an attempt that is not listed here. -/
theorem Kept.of_ne {key other id : Digest} {job changed : JobRecord} {record : AttemptRecord}
    (at_key : state.jobs.get? key = some job) (different : key ≠ other)
    (elsewhere : id ∉ job.attempts) :
    Kept state { state with
      attempts := state.attempts.set id record
      jobs := state.jobs.set other changed } key job where
  job_at := by rw [Dict.get?_set_ne _ _ different]; exact at_key
  attempts_eq listed member := Dict.get?_set_ne _ _ fun same => elsewhere (same ▸ member)

theorem Finished.ne_of_state {job another : JobRecord} {key other : Digest}
    (finished : Finished job) (at_key : state.jobs.get? key = some job)
    (at_other : state.jobs.get? other = some another)
    (busy : another.state = .queued ∨ another.state = .running ∨ another.state = .paused) :
    key ≠ other := by
  rintro rfl
  obtain rfl : job = another := by rw [at_key] at at_other; exact Option.some.inj at_other
  rcases finished with done | done <;> simp [done] at busy

theorem Finished.change {job : JobRecord} {key : Digest} {action : Action}
    (finished : Finished job) (invariant : JobInvariant sha256 documents state)
    (collisionFree : Set.InjOn sha256 documents)
    (hashed : ∀ document ∈ hashedDocument action data, document.canonical ∈ documents)
    (at_key : state.jobs.get? key = some job)
    (change : Change sha256 state data action next) : Kept state next key job := by
  cases change with
  | register => exact ⟨at_key, fun _ _ => rfl⟩
  | enqueue guard =>
      refine ⟨?_, fun _ _ => rfl⟩
      rw [Dict.get?_set_ne]
      · exact at_key
      · rintro rfl
        rw [guard.fresh] at at_key
        cases at_key
  | claim guard =>
      have fresh := invariant.attempt_fresh collisionFree guard
        (hashed _ (by simp [hashedDocument, guard.decoded]))
      refine .of_ne at_key ?_ fun member => ?_
      · exact finished.ne_of_state at_key (invariant.own guard.job_at) (.inl guard.queued)
      · obtain ⟨attempt, found, _⟩ := invariant.listed at_key member
        rw [fresh] at found
        cases found
  | abandon guard =>
      have different := finished.ne_of_state at_key (invariant.own guard.owns.job_at)
        (.inr (.inl guard.owns.job_running))
      exact .of_ne at_key different (invariant.owned_elsewhere guard.owns
        (invariant.job_key guard.owns.job_at ▸ different) at_key)
  | retry guard =>
      refine ⟨?_, fun _ _ => rfl⟩
      rw [Dict.get?_set_ne]
      · exact at_key
      · exact finished.ne_of_state at_key (invariant.own guard.job_at) (.inr (.inr guard.paused))
  | reconcile guard => exact ⟨at_key, fun _ _ => rfl⟩
  | complete guard =>
      have different := finished.ne_of_state at_key (invariant.own guard.owns.job_at)
        (.inr (.inl guard.owns.job_running))
      exact .of_ne at_key different (invariant.owned_elsewhere guard.owns
        (invariant.job_key guard.owns.job_at ▸ different) at_key)
  | quarantine guard => exact ⟨at_key, fun _ _ => rfl⟩
  | lift guard => exact ⟨at_key, fun _ _ => rfl⟩

theorem Finished.step {job : JobRecord} {key : Digest} {action : Action}
    (finished : Finished job) (invariant : JobInvariant sha256 documents state)
    (collisionFree : Set.InjOn sha256 documents)
    (hashed : ∀ document ∈ hashedDocument action data, document.canonical ∈ documents)
    (at_key : state.jobs.get? key = some job)
    (step : Step sha256 state data action next) : Kept state next key job := by
  cases step with
  | expand guard => exact ⟨at_key, fun _ _ => rfl⟩
  | event installs change =>
      obtain ⟨artifacts, _, _, rfl⟩ := install_eq_ok.mp installs.installs
      have kept := finished.change (invariant.frame artifacts _ _) collisionFree hashed at_key change
      exact ⟨kept.job_at, kept.attempts_eq⟩

theorem Finished.run {job : JobRecord} {key : Digest} {events : List (Action × Json.Members)}
    (finished : Finished job) (invariant : JobInvariant sha256 documents state)
    (collisionFree : Set.InjOn sha256 documents) (hashed : hashedBy events ⊆ documents)
    (at_key : state.jobs.get? key = some job)
    (ran : state.run sha256 events = .ok next) : Kept state next key job := by
  refine run_induction (motive := fun events after => hashedBy events ⊆ documents →
    Kept state after key job) (fun _ => ⟨at_key, fun _ _ => rfl⟩) ?_ ran hashed
  intro events before action data after earlier ih step within
  obtain ⟨within, last⟩ := hashedBy_concat_subset within
  have kept := ih within
  exact kept.trans (finished.step (invariant.run collisionFree within earlier) collisionFree last
    kept.job_at step)

/-! ### The state machine -/

/-- The job and attempt state machine, job by job. -/
structure JobStateMachine (state : State) : Prop where
  attempts_distinct : ∀ key job, state.jobs.get? key = some job → job.attempts.Nodup
  attempts_disjoint : ∀ key other job another, state.jobs.get? key = some job →
    state.jobs.get? other = some another → key ≠ other → job.attempts.Disjoint another.attempts
  attempts_known : ∀ id, id ∈ state.attempts.keys ↔
    ∃ key job, state.jobs.get? key = some job ∧ id ∈ job.attempts
  attempt_names_job : ∀ key job id, state.jobs.get? key = some job → id ∈ job.attempts →
    job.jobId = key ∧ ∃ attempt, state.attempts.get? id = some attempt ∧
      attempt.claim.attemptId = id ∧ attempt.claim.jobId = key
  claim_keys_unique : ∀ id other attempt another, state.attempts.get? id = some attempt →
    state.attempts.get? other = some another →
    attempt.claim.claimKey = another.claim.claimKey → id = other
  running_iff : ∀ key job, state.jobs.get? key = some job →
    (job.state = .running ↔ EndsIn state.attempts job.attempts .running)
  queued : ∀ key job, state.jobs.get? key = some job → job.state = .queued →
    Abandoned state.attempts job.attempts ∧ job.attempts.length < job.spec.attemptLimit.val
  paused : ∀ key job, state.jobs.get? key = some job → job.state = .paused →
    Abandoned state.attempts job.attempts ∧ 0 < job.attempts.length ∧
      job.attempts.length < job.spec.attemptLimit.val
  exhausted : ∀ key job, state.jobs.get? key = some job → job.state = .exhausted →
    Abandoned state.attempts job.attempts ∧ job.attempts.length = job.spec.attemptLimit.val
  completed : ∀ key job, state.jobs.get? key = some job → job.state = .completed →
    EndsIn state.attempts job.attempts .completed ∧ job.result.isSome = true
  unfinished : ∀ key job, state.jobs.get? key = some job → job.state ≠ .completed →
    job.result = none
  attempt_limit : ∀ key job, state.jobs.get? key = some job →
    job.spec.attemptLimit.val ≤ state.limits.maxAttemptsPerJob.val
  max_jobs : state.jobs.size ≤ state.limits.maxJobs.val
  max_active : state.jobs.values.countP (fun job => job.state.active) ≤
    state.limits.maxActiveJobs.val

/-- A list of attempts ends in one state only. -/
theorem EndsIn.unique {attempts : Dict Digest AttemptRecord} {ids : List Digest}
    {last other : AttemptState} (ends : EndsIn attempts ids last)
    (again : EndsIn attempts ids other) : last = other := by
  obtain ⟨earlier, id, attempt, rfl, _, found, rfl⟩ := ends
  obtain ⟨before, final, another, same, _, refound, rfl⟩ := again
  obtain ⟨_, tail⟩ := List.append_inj' same rfl
  obtain rfl : id = final := by simpa using tail
  rw [found] at refound
  rw [Option.some.inj refound]

theorem Abandoned.not_endsIn {attempts : Dict Digest AttemptRecord} {ids : List Digest}
    (abandoned : Abandoned attempts ids) : ¬ EndsIn attempts ids .running := by
  rintro ⟨earlier, id, attempt, rfl, _, found, running⟩
  obtain ⟨another, refound, stopped⟩ := abandoned id (by simp)
  rw [found] at refound
  obtain rfl := Option.some.inj refound
  rw [running] at stopped
  cases stopped

theorem Shaped.running_iff {attempts : Dict Digest AttemptRecord} {job : JobRecord}
    (shaped : Shaped attempts job) :
    job.state = .running ↔ EndsIn attempts job.attempts .running := by
  unfold Shaped at shaped
  split at shaped
  next same => simp [same, shaped.1.not_endsIn]
  next same => simp [same, shaped.1]
  next same => simp [same, shaped.1.not_endsIn]
  next same => simp [same, shaped.1.not_endsIn]
  next same =>
    have ended : ¬ EndsIn attempts job.attempts .running := fun ends => by
      cases ends.unique shaped.1
    simp [same, ended]

theorem JobInvariant.stateMachine (invariant : JobInvariant sha256 documents state) :
    JobStateMachine state where
  attempts_distinct key job at_key := invariant.distinct at_key
  attempts_disjoint key other job another at_key at_other different id member shared :=
    different (invariant.job_eq at_key at_other member shared)
  attempts_known id := by
    rw [Dict.mem_keys]
    constructor
    · rintro ⟨attempt, found⟩
      obtain ⟨job, at_job, member⟩ := invariant.owner found
      exact ⟨_, job, at_job, member⟩
    · rintro ⟨key, job, at_key, member⟩
      obtain ⟨attempt, found, _⟩ := invariant.listed at_key member
      exact ⟨attempt, found⟩
  attempt_names_job key job id at_key member := by
    obtain ⟨attempt, found, names⟩ := invariant.listed at_key member
    exact ⟨invariant.job_key at_key, attempt, found, invariant.attempt_key found, names⟩
  claim_keys_unique _ _ _ _ := invariant.claim_keys
  running_iff key job at_key := (invariant.shaped at_key).running_iff
  queued key job at_key same := by
    have shaped := invariant.shaped at_key
    rw [Shaped, same] at shaped
    exact ⟨shaped.1, shaped.2.1⟩
  paused key job at_key same := by
    have shaped := invariant.shaped at_key
    rw [Shaped, same] at shaped
    exact ⟨shaped.1, shaped.2.1, shaped.2.2.1⟩
  exhausted key job at_key same := by
    have shaped := invariant.shaped at_key
    rw [Shaped, same] at shaped
    exact ⟨shaped.1, shaped.2.1⟩
  completed key job at_key same := by
    have shaped := invariant.shaped at_key
    rw [Shaped, same] at shaped
    exact ⟨shaped.1, shaped.2.2⟩
  unfinished key job at_key different := by
    have shaped := invariant.shaped at_key
    unfold Shaped at shaped
    split at shaped
    · exact shaped.2.2
    · exact shaped.2.2
    · exact shaped.2.2.2
    · exact shaped.2.2
    next same => exact absurd same different
  attempt_limit key job at_key := invariant.attempts at_key
  max_jobs := invariant.jobs
  max_active := invariant.active

/-- After every run the jobs and attempts obey the state machine, and no event of the run
changed a completed or exhausted job or one of its attempts. -/
theorem run_jobStateMachine (sha256 : Bytes → Digest) (limits : RegistryLimits)
    (events : List (Action × Json.Members)) (state : State)
    (collisionFree : Set.InjOn sha256 (hashedBy events))
    (ran : (State.empty limits).run sha256 events = .ok state) :
    JobStateMachine state ∧
      ∀ earlier later middle key job, events = earlier ++ later →
        (State.empty limits).run sha256 earlier = .ok middle →
        middle.jobs.get? key = some job → Finished job → Kept middle state key job := by
  refine ⟨((JobInvariant.empty limits).run collisionFree (Set.Subset.refl _) ran).stateMachine, ?_⟩
  rintro earlier later middle key job rfl before at_key finished
  have hashed := hashedBy_append earlier later
  have invariant := (JobInvariant.empty limits).run collisionFree
    (hashed ▸ Set.subset_union_left) before
  obtain ⟨again, reran, after⟩ := foldAll_append_eq_ok.mp ran
  obtain rfl : middle = again := Except.ok.inj (before.symm.trans reran)
  exact finished.run invariant collisionFree (hashed ▸ Set.subset_union_right) at_key after

/-! ### A sample run: a job is enqueued, claimed and charged -/

namespace Sample

def source : ArtifactRef where
  sha256 := ⟨"6ad189ace456a83fade855d5a647cd8ad9e7966da4404b1187218dca3d9eddaa", isDigest_source⟩
  kind := ⟨"SourceArchive", by decide +kernel⟩
  schemaVersion := 1
  visibility := Visibility.private
  encoding := .bytes
  bounded := firstSchema

def settings : ArtifactRef where
  sha256 := ⟨"f684cf996549fec2b14ab4b1b2ba68bbc8e311097c0a06a45b0398e457970763", by decide +kernel⟩
  kind := ⟨"ConstructionSettings", by decide +kernel⟩
  schemaVersion := 1
  visibility := Visibility.private
  encoding := .bytes
  bounded := firstSchema

theorem fits_source : decide ([source].length ≤ 10000) = true := by decide

theorem isName_first : isName "first" = true := by decide +kernel

def spec : JobSpec where
  operation := .construct
  inputs := ⟨[source], fits_source⟩
  configuration := settings
  implementation := ⟨"797efd83f8c15deef7f4d4762a8c92d8b5a9305f", isRevision_sample⟩
  invocation := ⟨"first", isName_first⟩
  attemptLimit := ⟨2, rfl⟩
  distinct := by simp

def jobId : Digest :=
  ⟨"8e84165a36ff0d59c1e88312bb402236572a02fd11c4cb33c2654554cf523dbf", by decide +kernel⟩

def attemptId : Digest :=
  ⟨"89eb3218efb418d9ee75309040787c2f55c4cbc75ef1492b42c600fa3bc15c8d", by decide +kernel⟩

def claim : Claim where
  jobId := jobId
  attemptId := attemptId
  owner := ⟨"worker", by decide +kernel⟩
  claimKey := ⟨"try-1", by decide +kernel⟩
  token := ⟨"3c469e9d6c5875d37a43f353d4f88e61fcf812c66eee3457465a40b0da4153e0", by decide +kernel⟩

def cost : CostRecord where
  category := .construction
  wallSeconds := none
  cpuSeconds := none
  gpuSeconds := none
  inputTokens := some 1200
  outputTokens := none
  humanMinutes := none
  usd := none
  measurement := .incomplete
  note := ⟨"tokens only", by decide +kernel⟩
  consistent := by decide

def observation : CostObservation where
  source := ⟨"builder", by decide +kernel⟩
  upstreamAttemptId := ⟨"build-1", by decide +kernel⟩
  revision := ⟨1, within_10000⟩
  receipts := ⟨[source], fits_source⟩
  costs := [cost]
  nonempty := by simp
  uniqueChannels := by simp

def observationId : Digest :=
  ⟨"ef4f31994f2864933d53ac16bee255623842b5dd4caaeb4c66f1d544948e51e9", by decide +kernel⟩

/-- SHA-256 on the documents that the run hashes, told apart by a byte of their first key. -/
def digestOf (bytes : Bytes) : Digest :=
  match (bytes.drop 10).head? with
  | some 108 => jobId
  | some 121 => attemptId
  | _ => observationId

def record (ref : ArtifactRef) : Json := ArtifactRecord.codec.document ⟨ref, Refs.empty⟩

def registration : Action × Json.Members :=
  (.register, [("artifacts", .arr [record source, record settings])])

def enqueueing : Action × Json.Members :=
  (.enqueue, [("artifacts", .arr []), ("spec", JobSpec.codec.document spec)])

def claiming : Action × Json.Members :=
  (.claim, [("artifacts", .arr []), ("claim", Claim.codec.document claim)])

def reconciling : Action × Json.Members :=
  (.reconcile, [("artifacts", .arr []), ("claim", Claim.codec.document claim),
    ("observation", CostObservation.codec.document observation)])

def events : List (Action × Json.Members) := [registration, enqueueing, claiming, reconciling]

/-- The outcome is a state that passes the test. -/
def holds (test : State → Bool) (outcome : Outcome State) : Bool :=
  match outcome with
  | .ok state => test state
  | .error _ => false

theorem ran_of_holds {outcome : Outcome State} {property : State → Prop}
    [DecidablePred property] (ok : holds (fun state => decide (property state)) outcome = true) :
    ∃ state, outcome = .ok state ∧ property state := by
  cases outcome with
  | ok state => exact ⟨state, rfl, of_decide_eq_true ok⟩
  | error => cases ok

/-! #### Evaluating events without reading their documents again -/

theorem ok_then {α β : Type} (value : α) (next : α → Outcome β) :
    (Except.ok value >>= next) = next value := rfl

theorem validated_document {α : Type} (codec : Codec α) (value : α) :
    validated codec (codec.document value) = .ok value := by
  rw [validated, codec.validate_document, require]

theorem eventRecords_records (refs : List ArtifactRef) :
    eventRecords [("artifacts", .arr (refs.map record))] = .ok (refs.map fun ref => ⟨ref, Refs.empty⟩) := by
  have same : refs.map record =
      (refs.map fun ref => (⟨ref, Refs.empty⟩ : ArtifactRecord)).map ArtifactRecord.codec.document := by
    rw [List.map_map]
    rfl
  have listed : FeatureRl.member [("artifacts", .arr (refs.map record))] "artifacts" = .arr (refs.map record) := rfl
  rw [eventRecords, listed, same]
  simp only [Codec.validateAll_map, require]

theorem validated_spec : validated JobSpec.codec (FeatureRl.member enqueueing.2 "spec") = .ok spec :=
  validated_document JobSpec.codec spec

theorem validated_claim : validated Claim.codec (FeatureRl.member claiming.2 "claim") = .ok claim :=
  validated_document Claim.codec claim

theorem validated_claimed : validated Claim.codec (FeatureRl.member reconciling.2 "claim") = .ok claim :=
  validated_document Claim.codec claim

theorem validated_observation :
    validated CostObservation.codec (FeatureRl.member reconciling.2 "observation") = .ok observation :=
  validated_document CostObservation.codec observation

theorem eventRecords_registration : eventRecords registration.2 =
    .ok [⟨source, Refs.empty⟩, ⟨settings, Refs.empty⟩] :=
  eventRecords_records [source, settings]

/-- The documents that the run hashes. -/
def hashed : Set Json :=
  {JobSpec.codec.document spec, attemptDocument jobId claim.claimKey claim.owner,
    observationDocument attemptId observation}

theorem hashedBy_events : hashedBy events ⊆ Json.canonical '' hashed := by
  rintro bytes ⟨event, member, document, found, rfl⟩
  refine ⟨document, ?_, rfl⟩
  simp only [events, List.mem_cons, List.not_mem_nil, or_false] at member
  rcases member with rfl | rfl | rfl | rfl
  · simp [registration, hashedDocument] at found
  · simp [enqueueing, hashedDocument, FeatureRl.member, List.lookup_cons, Codec.validate_document] at found
    exact .inl found.symm
  · simp [claiming, hashedDocument, FeatureRl.member, List.lookup_cons, Codec.validate_document] at found
    exact .inr (.inl found.symm)
  · simp [reconciling, hashedDocument, FeatureRl.member, List.lookup_cons, Codec.validate_document] at found
    exact .inr (.inr found.symm)

theorem collisionFree : Set.InjOn digestOf (hashedBy events) := by
  have job : digestOf (JobSpec.codec.document spec).canonical = jobId := by decide +kernel
  have attempt : digestOf (attemptDocument jobId claim.claimKey claim.owner).canonical =
      attemptId := by decide +kernel
  have snapshot : digestOf (observationDocument attemptId observation).canonical =
      observationId := by decide +kernel
  have apart : jobId ≠ attemptId ∧ jobId ≠ observationId ∧ attemptId ≠ observationId := by
    decide +kernel
  refine Set.InjOn.mono hashedBy_events ?_
  rintro _ ⟨first, rfl | rfl | rfl, rfl⟩ _ ⟨second, rfl | rfl | rfl, rfl⟩ same
  all_goals simp_all [ne_comm]

theorem ran : ∃ state, (State.empty RegistryLimits.default).run digestOf events = .ok state ∧
    state.observations.size = 1 := by
  have registers : registration.1 = .register := rfl
  have enqueues : enqueueing.1 = .enqueue := rfl
  have claims : claiming.1 = .claim := rfl
  have reconciles : reconciling.1 = .reconcile := rfl
  simp only [events, run, foldAll, apply, registers, enqueues, claims, reconciles, reduceCtorEq, if_false, applyEvent,
    applyInstalled, applyEnqueue, applyClaim, applyReconcile, validated_spec, validated_claim, validated_claimed,
    validated_observation, eventRecords_registration, JobRecord.updated_attempts, require, ok_then]
  exact ran_of_holds (by decide +kernel)

end Sample

theorem run_jobStateMachine_sample :
    ∃ state, (State.empty RegistryLimits.default).run Sample.digestOf Sample.events = .ok state ∧
      JobStateMachine state := by
  obtain ⟨state, ran, _⟩ := Sample.ran
  exact ⟨state, ran, (run_jobStateMachine Sample.digestOf RegistryLimits.default Sample.events state
    Sample.collisionFree ran).1⟩

end State

end FeatureRl
