import FeatureRl.Pipeline.SourceAdmission
import FeatureRl.Registry.JobEnds

/-! What one step of a factory call does to the source admissions of a candidate. -/

namespace FeatureRl

open Checked
open State (Named InputsRegistered RootsRegistered AttemptsNamed JobsChange)

namespace SourceAdmission

section

variable {sha256 : Bytes → Digest} {contents : Contents} {collapseCosts : List CostRecord → List CostRecord}
  {candidate : ArtifactRef} {factory : Factory} {state : State}

/-! ### The lookup -/

/-- A source admission of the candidate. -/
structure Admits (candidate : ArtifactRef) (state : State) (key : Digest) (job : JobRecord) : Prop where
  found : state.jobs.get? key = some job
  subject : isSourceJob candidate job.spec = true

theorem isSourceJob_sourceSpec (factory : Factory) (candidate : ArtifactRef) :
    isSourceJob candidate (sourceSpec factory candidate) = true := by
  simp [isSourceJob, sourceSpec]

theorem Admits.inputs {key : Digest} {job : JobRecord} (admits : Admits candidate state key job) :
    job.spec.inputs.val = [candidate] := by
  have subject := admits.subject
  simp only [isSourceJob, Bool.and_eq_true, decide_eq_true_eq] at subject
  exact subject.2

theorem readJobs_eq_ok {ids : List Digest} {jobs : List JobRecord} (read : readJobs state ids = .ok jobs) :
    (∀ id ∈ ids, ∃ job ∈ jobs, state.jobs.get? id = some job) ∧
      ∀ job ∈ jobs, ∃ id, state.jobs.get? id = some job := by
  induction ids generalizing jobs with
  | nil =>
      obtain rfl := Except.ok.inj read
      simp
  | cons id rest ih =>
      simp only [readJobs, State.getJob, bind_eq_ok, require_eq_ok] at read
      obtain ⟨job, found, others, later, done⟩ := read
      obtain rfl := Except.ok.inj done
      obtain ⟨covered, real⟩ := ih later
      constructor
      · intro other member
        rcases List.mem_cons.mp member with rfl | inside
        · exact ⟨job, List.mem_cons_self, found⟩
        · obtain ⟨another, listed, present⟩ := covered other inside
          exact ⟨another, List.mem_cons_of_mem _ listed, present⟩
      · intro other member
        rcases List.mem_cons.mp member with rfl | inside
        · exact ⟨id, found⟩
        · exact real other inside

theorem readJobs_known {ids : List Digest} (present : ∀ id ∈ ids, id ∈ state.jobs.keys) :
    ∃ jobs, readJobs state ids = .ok jobs := by
  induction ids with
  | nil => exact ⟨[], rfl⟩
  | cons id rest ih =>
      obtain ⟨job, found⟩ := Dict.mem_keys.mp (present id List.mem_cons_self)
      obtain ⟨others, read⟩ := ih fun other member => present other (List.mem_cons_of_mem _ member)
      exact ⟨job :: others, by simp [readJobs, State.getJob, found, require, read, bind, Except.bind]⟩

/-- The trace of a registered candidate does not fail for an unknown identity. -/
theorem traced_known (roots : RootsRegistered state) (registered : state.registered candidate = true)
    {failure : Failure} (failed : traced state candidate = .error failure) : failure.kind ≠ .unknownIdentity := by
  obtain ⟨affected, found, least⟩ := State.affected_isLeast registered
  have below := least.2 (show state.everything candidate ∈ State.Covers state candidate from
    ⟨by simp [State.everything], State.closed_everything candidate⟩)
  have present : ∀ id ∈ affected.2.sort, id ∈ state.jobs.keys :=
    fun id member => List.mem_toFinset.mp (below.2 ((Finset.mem_sort _).mp member))
  obtain ⟨jobs, read⟩ := readJobs_known present
  have noticed : checkAll (fun notice : QuarantineNotice => (state.affected notice.root).map fun _ => ())
      state.notices.values = .ok () := by
    refine checkAll_eq_ok.mpr fun notice member => ?_
    obtain ⟨reached, known, _⟩ := State.affected_isLeast (roots notice member)
    rw [known]
    rfl
  simp only [traced, found, noticed, read, bind, Except.bind, refuse] at failed
  split at failed
  next stopped =>
    split at stopped
    next =>
      obtain rfl := Except.error.inj stopped
      obtain rfl := Except.error.inj failed
      simp
    next => cases stopped
  next => cases failed

theorem candidateJobs_eq_ok (inputs : InputsRegistered state) (roots : RootsRegistered state)
    {jobs : List JobRecord} (listed : candidateJobs state candidate = .ok jobs) :
    (∀ key job, Admits candidate state key job → job ∈ jobs) ∧
      ∀ job ∈ jobs, ∃ key, state.jobs.get? key = some job := by
  rw [candidateJobs] at listed
  split at listed
  next found traces =>
    obtain rfl := Except.ok.inj listed
    simp only [traced, bind_eq_ok] at traces
    obtain ⟨affected, reached, _, _, _, _, read⟩ := traces
    obtain ⟨covered, real⟩ := readJobs_eq_ok read
    refine ⟨fun key job admits => ?_, real⟩
    obtain ⟨_, covers, _⟩ := State.affected_eq_ok.mp reached
    have inside : key ∈ affected.2 := covers.2.jobs key job admits.found
      ⟨candidate, by simp [State.jobDependencies, admits.inputs], covers.1⟩
    obtain ⟨same, member, at_key⟩ := covered key ((Finset.mem_sort _).mpr inside)
    obtain rfl := Option.some.inj (admits.found.symm.trans at_key)
    exact member
  next failure failed =>
    split at listed
    next unknown =>
      obtain rfl := Except.ok.inj listed
      refine ⟨fun key job admits => ?_, by simp⟩
      have registered := inputs key job admits.found candidate (by simp [admits.inputs])
      exact absurd unknown (traced_known roots registered failed)
    next => cases listed

theorem mapError_eq_ok {α : Type} {outcome : Outcome α} {value : α} :
    outcome.mapError Refusal.registry = .ok value ↔ outcome = .ok value := by
  cases outcome <;> simp [Except.mapError]

/-- A lookup that lets a call go on saw no earlier import, and no job of another factory. -/
theorem lookup_proceed (inputs : InputsRegistered state) (roots : RootsRegistered state)
    (found : lookup contents factory state candidate = .ok .proceed) {key : Digest} {job : JobRecord}
    (admits : Admits candidate state key job) :
    job.spec = sourceSpec factory candidate ∧ job.attempts = [] := by
  simp only [lookup, bind_eq_ok, mapError_eq_ok] at found
  obtain ⟨value, _, _, _, jobs, listed, found⟩ := found
  have member := (candidateJobs_eq_ok inputs roots listed).1 key job admits
  have inside : job ∈ jobs.filter fun job => isSourceJob candidate job.spec :=
    List.mem_filter.mpr ⟨member, admits.subject⟩
  split at found
  next none_there =>
    rw [none_there] at inside
    cases inside
  next prior only =>
    rw [only] at inside
    obtain rfl := List.mem_singleton.mp inside
    split at found
    next unclaimed => exact ⟨unclaimed.2.1, unclaimed.2.2⟩
    next =>
      split at found
      next => split at found <;> cases found
      next =>
        obtain ⟨result, _, done⟩ := bind_eq_ok.mp found
        cases done
  next => cases found

theorem priorResult_eq_ok {value : CandidateRecord} {prior : JobRecord} {result : OperationResult}
    (found : priorResult contents state candidate value prior = .ok result) : prior.result = some result := by
  rw [priorResult] at found
  split at found
  next => cases found
  next held =>
    split at found
    next =>
      simp only [bind_eq_ok] at found
      obtain ⟨_, _, _, _, _, _, _, _, done⟩ := found
      rw [held, Except.ok.inj done]
    next => cases found

/-- What a lookup returns is the result of a completed source admission. -/
theorem lookup_finished (inputs : InputsRegistered state) (roots : RootsRegistered state)
    {result : OperationResult} (found : lookup contents factory state candidate = .ok (.finished result)) :
    ∃ key job, Admits candidate state key job ∧ job.state = .completed ∧ job.result = some result := by
  simp only [lookup, bind_eq_ok, mapError_eq_ok] at found
  obtain ⟨value, _, _, _, jobs, listed, found⟩ := found
  split at found
  next => cases found
  next prior only =>
    have inside : prior ∈ jobs.filter fun job => isSourceJob candidate job.spec := by
      rw [only]
      exact List.mem_singleton_self prior
    obtain ⟨member, subject⟩ := List.mem_filter.mp inside
    obtain ⟨key, present⟩ := (candidateJobs_eq_ok inputs roots listed).2 prior member
    split at found
    next => cases found
    next =>
      split at found
      next => split at found <;> cases found
      next finished =>
        obtain ⟨held, read, done⟩ := bind_eq_ok.mp found
        obtain rfl := Lookup.finished.inj (Except.ok.inj done)
        exact ⟨key, prior, ⟨present, subject⟩, not_not.mp finished, priorResult_eq_ok read⟩
  next => cases found

/-! ### The ledger -/

/-- The result that was recorded under the only attempt. -/
def Imported (ledger : Ledger) (job : JobRecord) : Prop :=
  ∃ attempt result, ledger.imports = [attempt] ∧ job.result = some result ∧
    (attempt, result.costs) ∈ ledger.recorded

/-- A receipt of the candidate says what the candidate says. -/
def Genuine (contents : Contents) (candidate : ArtifactRef) (receipt : SourceDisposition) : Prop :=
  receipt.candidate = candidate ∧
    ∃ value, contents.candidate candidate = some value ∧ MatchesValue receipt value

/-- The costs of a receipt with the original costs of the candidate, under one of the attempts. -/
def Records (contents : Contents) (candidate : ArtifactRef) (imports : List Digest)
    (entry : Digest × List CostRecord) : Prop :=
  entry.1 ∈ imports ∧
    ∃ receipt, Genuine contents candidate receipt ∧ entry = (receipt.claim.attemptId, receipt.costs)

structure Core (sha256 : Bytes → Digest) (contents : Contents) (candidate : ArtifactRef) (ledger : Ledger) :
    Prop where
  named : Named ledger.registry
  inputs : InputsRegistered ledger.registry
  roots : RootsRegistered ledger.registry
  attempts_named : AttemptsNamed ledger.registry
  keyed : ∀ key job, Admits candidate ledger.registry key job → key = State.jobKey sha256 job.spec
  unique : ∀ key job other another, Admits candidate ledger.registry key job →
    Admits candidate ledger.registry other another → key = other
  imports : ∀ key job, Admits candidate ledger.registry key job → job.attempts = ledger.imports
  backed : ledger.imports ≠ [] → ∃ key job, Admits candidate ledger.registry key job
  short : ledger.imports.length ≤ 1
  recorded : ∀ entry ∈ ledger.recorded, Records contents candidate ledger.imports entry
  completed : ∀ key job, Admits candidate ledger.registry key job → job.state = .completed → Imported ledger job

/-- What every step of a call keeps. -/
structure Grows (candidate : ArtifactRef) (ledger next : Ledger) : Prop where
  kept : ∀ key job, Admits candidate ledger.registry key job → ∃ after, Admits candidate next.registry key after
  settled : ∀ key job, Admits candidate ledger.registry key job → job.state = .completed →
    Admits candidate next.registry key job
  imports : ledger.imports ⊆ next.imports
  recorded : ledger.recorded ⊆ next.recorded

/-- A change without a new source admission or import. -/
structure Quiet (candidate : ArtifactRef) (ledger next : Ledger) : Prop extends Grows candidate ledger next where
  same : next.imports = ledger.imports
  old : ∀ key after, Admits candidate next.registry key after →
    ∃ before, Admits candidate ledger.registry key before ∧ after.spec = before.spec

theorem Quiet.refl (ledger : Ledger) : Quiet candidate ledger ledger where
  kept _ job admits := ⟨job, admits⟩
  settled _ _ admits _ := admits
  imports := List.Subset.refl _
  recorded := List.Subset.refl _
  same := rfl
  old _ after admits := ⟨after, admits, rfl⟩

theorem Admits.follow {next : State} {key : Digest} {job after : JobRecord} (admits : Admits candidate state key job)
    (found : next.jobs.get? key = some after) (same : after.spec = job.spec) : Admits candidate next key after :=
  ⟨found, same ▸ admits.subject⟩

/-- Any registry event keeps what is there. -/
theorem grows_of_step {ledger next : Ledger} (named : Named ledger.registry) {action : Action}
    {data : Json.Members} (event : State.Step sha256 ledger.registry data action next.registry)
    (imports : ledger.imports ⊆ next.imports) (recorded : ledger.recorded ⊆ next.recorded) :
    Grows candidate ledger next where
  kept key job admits := by
    obtain ⟨after, found, follows⟩ := (State.Step.jobsChange named event).kept admits.found
    exact ⟨after, admits.follow found follows.spec⟩
  settled key job admits completed :=
    ⟨(State.Step.jobsChange named event).settled admits.found completed, admits.subject⟩
  imports := imports
  recorded := recorded

/-- Events that neither add nor claim a source admission keep the invariant. -/
theorem Core.event {ledger : Ledger} (core : Core sha256 contents candidate ledger) {action : Action}
    {data : Json.Members} {next : State} (event : State.Step sha256 ledger.registry data action next)
    {recorded : List (Digest × List CostRecord)} (more : ledger.recorded ⊆ recorded)
    (within : ∀ entry ∈ recorded, Records contents candidate ledger.imports entry)
    (enqueues : action = .enqueue → ∀ spec, JobSpec.codec.validate (member data "spec") = some spec →
      isSourceJob candidate spec = false)
    (claims : action = .claim → ∀ claim, Claim.codec.validate (member data "claim") = some claim →
      ∀ job, ledger.registry.jobs.get? claim.jobId = some job → isSourceJob candidate job.spec = false)
    (completes : action = .complete → ∀ claim result, Claim.codec.validate (member data "claim") = some claim →
      OperationResult.codec.validate (member data "result") = some result → ∀ job,
        Admits candidate ledger.registry claim.jobId job →
          ∃ attempt, ledger.imports = [attempt] ∧ (attempt, result.costs) ∈ recorded) :
    Core sha256 contents candidate { ledger with registry := next, recorded := recorded } ∧
      Quiet candidate ledger { ledger with registry := next, recorded := recorded } := by
  have change := State.Step.jobsChange core.named event
  have old : ∀ key after, Admits candidate next key after → ∃ before,
      Admits candidate ledger.registry key before ∧ after.spec = before.spec ∧ after.attempts = before.attempts := by
    intro key after admits
    have unlisted : action = .enqueue → ∀ spec, JobSpec.codec.validate (member data "spec") = some spec →
        ¬ isSourceJob candidate spec = true :=
      fun enqueued spec decoded => by simp [enqueues enqueued spec decoded]
    have unclaimed : action = .claim → ∀ claim, Claim.codec.validate (member data "claim") = some claim → ∀ job,
        ledger.registry.jobs.get? claim.jobId = some job → ¬ isSourceJob candidate job.spec = true :=
      fun claimed claim decoded job found => by simp [claims claimed claim decoded job found]
    obtain ⟨before, found, spec, attempts⟩ :=
      change.attempts_kept unlisted unclaimed admits.found admits.subject
    exact ⟨before, ⟨found, spec ▸ admits.subject⟩, spec, attempts⟩
  have grows : Grows candidate ledger { ledger with registry := next, recorded := recorded } :=
    grows_of_step core.named event (List.Subset.refl _) more
  refine ⟨⟨core.named.step event, core.inputs.step core.named event, core.roots.step event,
    core.attempts_named.step event, ?_, ?_, ?_, ?_, core.short, within, ?_⟩, grows, rfl, ?_⟩
  · intro key job admits
    obtain ⟨before, earlier, spec, _⟩ := old key job admits
    rw [spec, ← core.keyed key before earlier]
  · intro key job other another one two
    obtain ⟨before, earlier, _⟩ := old key job one
    obtain ⟨first, present, _⟩ := old other another two
    exact core.unique key before other first earlier present
  · intro key job admits
    obtain ⟨before, earlier, _, attempts⟩ := old key job admits
    rw [attempts, core.imports key before earlier]
  · intro some_import
    obtain ⟨key, job, admits⟩ := core.backed some_import
    obtain ⟨after, later⟩ := grows.kept key job admits
    exact ⟨key, after, later⟩
  · intro key job admits completed
    rcases event.completed core.named admits.found completed with before | ⟨completing, claim, result, by_claim⟩
    · obtain ⟨attempt, result, only, held, inside⟩ :=
        core.completed key job ⟨before, admits.subject⟩ completed
      exact ⟨attempt, result, only, held, more inside⟩
    · obtain ⟨before, found, spec, _⟩ := by_claim.before
      obtain ⟨attempt, only, inside⟩ := completes completing claim result by_claim.decoded by_claim.read before
        ⟨by_claim.at_claim ▸ found, spec ▸ admits.subject⟩
      exact ⟨attempt, result, only, by_claim.result, inside⟩
  · intro key after admits
    obtain ⟨before, earlier, spec, _⟩ := old key after admits
    exact ⟨before, earlier, spec⟩

/-! ### Calls -/

def Subject (candidate : ArtifactRef) (ledger : Ledger) (jobId : Digest) : Prop :=
  ∃ job, Admits candidate ledger.registry jobId job

/-- The claim is the one of the only attempt. -/
structure Own (candidate : ArtifactRef) (ledger : Ledger) (claim : Claim) : Prop where
  subject : Subject candidate ledger claim.jobId
  imported : claim.attemptId ∈ ledger.imports

def PhaseHolds (contents : Contents) (candidate : ArtifactRef) (ledger : Ledger) (factory : Factory) : Phase → Prop
  | .started | .claimed _ | .intended _ => True
  | .proposed => ledger.imports = [] ∧
      ∀ key job, Admits candidate ledger.registry key job → job.spec = sourceSpec factory candidate
  | .queued jobId => ledger.imports = [] ∧ Subject candidate ledger jobId
  | .recovering claim | .opened claim | .selected claim _ _ => Subject candidate ledger claim.jobId
  | .retained _ receipt => receipt.candidate = candidate
  | .checked claim receipt | .registered claim receipt _ =>
      receipt.claim = claim ∧ Own candidate ledger claim ∧ Genuine contents candidate receipt
  | .frozen receipt _ => Own candidate ledger receipt.claim ∧ Genuine contents candidate receipt
  | .accounted receipt _ => Own candidate ledger receipt.claim ∧
      (receipt.claim.attemptId, receipt.costs) ∈ ledger.recorded

def Finished (candidate : ArtifactRef) (registry : State) (result : OperationResult) : Prop :=
  ∃ key job, Admits candidate registry key job ∧ job.state = .completed ∧ job.result = some result

variable {ledger next : Ledger}

theorem Subject.grow {jobId : Digest} (subject : Subject candidate ledger jobId)
    (grows : Grows candidate ledger next) : Subject candidate next jobId := by
  obtain ⟨job, admits⟩ := subject
  exact grows.kept jobId job admits

theorem Own.grow {claim : Claim} (own : Own candidate ledger claim) (grows : Grows candidate ledger next) :
    Own candidate next claim := ⟨own.subject.grow grows, grows.imports own.imported⟩

theorem Finished.grow {result : OperationResult} (finished : Finished candidate ledger.registry result)
    (grows : Grows candidate ledger next) : Finished candidate next.registry result := by
  obtain ⟨key, job, admits, completed, held⟩ := finished
  exact ⟨key, job, grows.settled key job admits completed, completed, held⟩

/-- What a call without the lock relies on only grows. -/
theorem PhaseHolds.grow {phase : Phase} (holds : PhaseHolds contents candidate ledger factory phase)
    (unlocked : phase.locked = false) (grows : Grows candidate ledger next) :
    PhaseHolds contents candidate next factory phase := by
  cases phase with
  | started | proposed | queued | claimed | intended => cases unlocked
  | recovering | opened | selected => exact Subject.grow holds grows
  | retained => exact holds
  | checked | registered => exact ⟨holds.1, holds.2.1.grow grows, holds.2.2⟩
  | frozen => exact ⟨holds.1.grow grows, holds.2⟩
  | accounted => exact ⟨holds.1.grow grows, grows.recorded holds.2⟩

/-- What the holder of the lock relies on stays while others go on. -/
theorem PhaseHolds.quiet {phase : Phase} (holds : PhaseHolds contents candidate ledger factory phase)
    (quiet : Quiet candidate ledger next) : PhaseHolds contents candidate next factory phase := by
  by_cases locked : phase.locked = false
  · exact holds.grow locked quiet.toGrows
  · cases phase with
    | started | claimed | intended => trivial
    | proposed =>
        refine ⟨quiet.same.trans holds.1, fun key job admits => ?_⟩
        obtain ⟨before, earlier, spec⟩ := quiet.old key job admits
        rw [spec, holds.2 key before earlier]
    | queued => exact ⟨quiet.same.trans holds.1, holds.2.grow quiet.toGrows⟩
    | recovering | opened | selected | retained | checked | registered | frozen | accounted =>
        exact absurd rfl locked

/-- A receipt that passes its check has the claim of the only attempt. -/
theorem own_of_isSourceRecord (core : Core sha256 contents candidate ledger) {claim : Claim} {receipt : SourceDisposition}
    (accepted : IsSourceRecord contents factory ledger.registry claim receipt)
    (subject : receipt.candidate = candidate ∨ Subject candidate ledger claim.jobId) :
    Own candidate ledger claim ∧ Genuine contents candidate receipt := by
  obtain ⟨job, found, spec⟩ := accepted.job
  have same : receipt.candidate = candidate := by
    rcases subject with same | ⟨other, admits⟩
    · exact same
    · obtain rfl := Option.some.inj (found.symm.trans admits.found)
      have inputs := admits.inputs
      rw [spec] at inputs
      exact (List.cons.inj inputs).1
  have admits : Admits candidate ledger.registry claim.jobId job := by
    refine ⟨found, ?_⟩
    rw [spec, same]
    exact isSourceJob_sourceSpec factory candidate
  refine ⟨⟨⟨job, admits⟩, ?_⟩, same, same ▸ accepted.value⟩
  obtain ⟨holder, at_claim, item, listed, of_claim⟩ := accepted.attempt
  obtain rfl := Option.some.inj (found.symm.trans at_claim)
  obtain ⟨id, inside, present⟩ := List.mem_filterMap.mp listed
  rw [← core.imports _ job admits, ← of_claim, core.attempts_named id item present]
  exact inside

theorem Core.records_append (core : Core sha256 contents candidate ledger) {receipt : SourceDisposition}
    (own : Own candidate ledger receipt.claim) (genuine : Genuine contents candidate receipt) :
    ∀ entry ∈ ledger.recorded ++ [(receipt.claim.attemptId, receipt.costs)],
      Records contents candidate ledger.imports entry := by
  intro entry inside
  rcases List.mem_append.mp inside with earlier | last
  · exact core.recorded entry earlier
  · rw [List.mem_singleton.mp last]
    exact ⟨own.imported, receipt, genuine, rfl⟩

/-- An enqueue adds the only source admission. -/
theorem Core.enqueue (core : Core sha256 contents candidate ledger) {data : Json.Members} {registry : State}
    (proposed : PhaseHolds contents candidate ledger factory .proposed)
    (decoded : JobSpec.codec.validate (member data "spec") = some (sourceSpec factory candidate))
    (event : State.Step sha256 ledger.registry data .enqueue registry) :
    Core sha256 contents candidate { ledger with registry := registry } ∧
      Subject candidate { ledger with registry := registry }
        (State.jobKey sha256 (sourceSpec factory candidate)) := by
  obtain ⟨fresh, jobs⟩ := event.enqueue_spec decoded
  have only : ∀ key job, Admits candidate registry key job →
      key = State.jobKey sha256 (sourceSpec factory candidate) ∧
        job = State.newJob key (sourceSpec factory candidate) := by
    intro key job admits
    have found := admits.found
    rw [jobs, Dict.get?_set] at found
    split at found
    next same =>
      obtain rfl := Option.some.inj found
      exact ⟨same, by rw [same]⟩
    next =>
      have earlier : Admits candidate ledger.registry key job := ⟨found, admits.subject⟩
      have at_key := core.keyed key job earlier
      rw [proposed.2 key job earlier] at at_key
      rw [at_key, fresh] at found
      cases found
  have added : Admits candidate registry (State.jobKey sha256 (sourceSpec factory candidate))
      (State.newJob (State.jobKey sha256 (sourceSpec factory candidate)) (sourceSpec factory candidate)) :=
    ⟨by rw [jobs, Dict.get?_set_self], isSourceJob_sourceSpec factory candidate⟩
  refine ⟨⟨core.named.step event, core.inputs.step core.named event, core.roots.step event,
    core.attempts_named.step event, ?_, ?_, ?_, ?_, core.short, core.recorded, ?_⟩, _, added⟩
  · intro key job admits
    obtain ⟨at_key, rfl⟩ := only key job admits
    exact at_key
  · intro key job other another one two
    rw [(only key job one).1, (only other another two).1]
  · intro key job admits
    obtain ⟨_, rfl⟩ := only key job admits
    exact proposed.1.symm
  · intro some_import
    exact absurd proposed.1 some_import
  · intro key job admits completed
    obtain ⟨_, rfl⟩ := only key job admits
    cases completed

/-- A claim makes the first attempt. -/
theorem Core.claim (core : Core sha256 contents candidate ledger) {jobId : Digest} {claim : Claim} {data : Json.Members}
    {registry : State} (queued : PhaseHolds contents candidate ledger factory (.queued jobId))
    (decoded : Claim.codec.validate (member data "claim") = some claim) (own : claim.jobId = jobId)
    (event : State.Step sha256 ledger.registry data .claim registry) :
    Core sha256 contents candidate
      { ledger with registry := registry, imports := ledger.imports ++ [claim.attemptId] } := by
  obtain ⟨none_yet, job, admits⟩ := queued
  rw [none_yet, List.nil_append]
  obtain ⟨same, found, _, claimed⟩ := event.claim_spec core.named decoded
  rw [own] at found claimed
  obtain rfl := Option.some.inj (found.symm.trans admits.found)
  have old : ∀ key after, Admits candidate registry key after →
      ∃ before, Admits candidate ledger.registry key before ∧ after.spec = before.spec ∧ key = jobId := by
    intro key after later
    rcases (State.Step.jobsChange core.named event).follows later.found with
      ⟨before, earlier, follows⟩ | ⟨enqueued, _⟩
    · have old : Admits candidate ledger.registry key before := ⟨earlier, follows.spec ▸ later.subject⟩
      exact ⟨before, old, follows.spec, core.unique key before jobId same old admits⟩
    · cases enqueued
  refine ⟨core.named.step event, core.inputs.step core.named event, core.roots.step event,
    core.attempts_named.step event, ?_, ?_, ?_, ?_, by simp, ?_, ?_⟩
  · intro key after later
    obtain ⟨before, earlier, spec, _⟩ := old key after later
    rw [spec, ← core.keyed key before earlier]
  · intro key after other another one two
    obtain ⟨_, _, _, rfl⟩ := old key after one
    obtain ⟨_, _, _, rfl⟩ := old other another two
    rfl
  · intro key after later
    obtain ⟨_, _, _, rfl⟩ := old key after later
    obtain rfl := Option.some.inj (claimed.symm.trans later.found)
    simp [core.imports _ _ admits, none_yet]
  · intro _
    exact ⟨jobId, _, claimed, admits.subject⟩
  · intro entry inside
    have none_there := (core.recorded entry inside).1
    rw [none_yet] at none_there
    cases none_there
  · intro key after later completed
    rcases event.completed core.named later.found completed with before | ⟨completing, _⟩
    · obtain ⟨attempt, _, only, _⟩ := core.completed key after ⟨before, later.subject⟩ completed
      rw [none_yet] at only
      cases only
    · cases completing

/-- What one step of a call does. -/
structure Steps (sha256 : Bytes → Digest) (contents : Contents) (candidate : ArtifactRef) (factory : Factory)
    (ledger : Ledger) (phase : Phase) (next : Ledger) (progress : Progress) : Prop where
  core : Core sha256 contents candidate next
  grows : Grows candidate ledger next
  quiet : phase.locked = false → Quiet candidate ledger next
  goes : ∀ after, progress = .goes after →
    PhaseHolds contents candidate next factory after ∧ (phase.locked = false → after.locked = false)
  returns : ∀ result, progress = .returns result → Finished candidate next.registry result

/-- A step that only reads. -/
theorem Steps.goes_on (core : Core sha256 contents candidate ledger) {phase after : Phase}
    (holds : PhaseHolds contents candidate ledger factory after)
    (unlocked : phase.locked = false → after.locked = false) :
    Steps sha256 contents candidate factory ledger phase ledger (.goes after) where
  core := core
  grows := (Quiet.refl ledger).toGrows
  quiet _ := Quiet.refl ledger
  goes other same := by
    obtain rfl := Progress.goes.inj same
    exact ⟨holds, unlocked⟩
  returns _ same := by cases same

theorem Steps.returned (core : Core sha256 contents candidate ledger) {phase : Phase} {result : OperationResult}
    (finished : Finished candidate ledger.registry result) :
    Steps sha256 contents candidate factory ledger phase ledger (.returns result) where
  core := core
  grows := (Quiet.refl ledger).toGrows
  quiet _ := Quiet.refl ledger
  goes _ same := by cases same
  returns other same := by
    obtain rfl := Progress.returns.inj same
    exact finished

/-- A step of the holder or of another call that changes the registry quietly. -/
theorem Steps.wrote {phase after : Phase} (kept : Core sha256 contents candidate next ∧ Quiet candidate ledger next)
    (holds : PhaseHolds contents candidate next factory after)
    (unlocked : phase.locked = false → after.locked = false) :
    Steps sha256 contents candidate factory ledger phase next (.goes after) where
  core := kept.1
  grows := kept.2.toGrows
  quiet _ := kept.2
  goes other same := by
    obtain rfl := Progress.goes.inj same
    exact ⟨holds, unlocked⟩
  returns _ same := by cases same

/-- Any step of a call keeps the invariant. -/
theorem steps_of_callStep (core : Core sha256 contents candidate ledger) {phase : Phase} {progress : Progress}
    (holds : PhaseHolds contents candidate ledger factory phase)
    (step : CallStep sha256 contents collapseCosts candidate factory ledger phase next progress) :
    Steps sha256 contents candidate factory ledger phase next progress := by
  cases step with
  | finished found =>
      exact .returned core (lookup_finished core.inputs core.roots found)
  | proceed found =>
      have unclaimed : ∀ key job, Admits candidate ledger.registry key job →
          job.spec = sourceSpec factory candidate ∧ job.attempts = [] :=
        fun key job admits => lookup_proceed core.inputs core.roots found admits
      refine .goes_on core ⟨?_, fun key job admits => (unclaimed key job admits).1⟩ (by rintro ⟨⟩)
      by_contra some_import
      obtain ⟨key, job, admits⟩ := core.backed some_import
      exact some_import ((core.imports key job admits).symm.trans (unclaimed key job admits).2)
  | enqueue decoded event =>
      obtain ⟨kept, subject⟩ := core.enqueue holds decoded event
      refine ⟨kept, grows_of_step core.named event (List.Subset.refl _) (List.Subset.refl _), by rintro ⟨⟩, ?_,
        by rintro _ ⟨⟩⟩
      rintro _ ⟨⟩
      exact ⟨⟨holds.1, subject⟩, by rintro ⟨⟩⟩
  | enqueued found same queued =>
      exact .goes_on core ⟨holds.1, _, found, same ▸ isSourceJob_sourceSpec factory candidate⟩ (by rintro ⟨⟩)
  | enqueuedCompleted found same completed held =>
      exact .returned core ⟨_, _, ⟨found, same ▸ isSourceJob_sourceSpec factory candidate⟩, completed, held⟩
  | claim decoded own event =>
      refine ⟨core.claim holds decoded own event,
        grows_of_step core.named event (List.subset_append_left _ _) (List.Subset.refl _), by rintro ⟨⟩, ?_,
        by rintro _ ⟨⟩⟩
      rintro _ ⟨⟩
      exact ⟨trivial, by rintro ⟨⟩⟩
  | intend decoded observed is event =>
      exact .wrote (core.event event (List.Subset.refl _) core.recorded (by rintro ⟨⟩) (by rintro ⟨⟩)
        (by rintro ⟨⟩)) trivial (by rintro ⟨⟩)
  | decide found is => exact .goes_on core is.subject (by rintro ⟨⟩)
  | check accepted =>
      exact .goes_on core ⟨accepted.own, own_of_isSourceRecord core accepted (.inl holds)⟩ fun _ => rfl
  | register stored event =>
      have kept := core.event event (List.Subset.refl _) core.recorded (by rintro ⟨⟩) (by rintro ⟨⟩)
        (by rintro ⟨⟩)
      exact .wrote kept ⟨holds.1, holds.2.1.grow kept.2.toGrows, holds.2.2⟩ fun _ => rfl
  | registered stored known => exact .goes_on core holds fun _ => rfl
  | @freeze claim receipt ref observation data registry decoded observed is event =>
      obtain ⟨rfl, own, genuine⟩ := holds
      have within := core.records_append own genuine
      have kept := core.event event (List.subset_append_left _ _) within (by rintro ⟨⟩) (by rintro ⟨⟩)
        (by rintro ⟨⟩)
      exact .wrote kept ⟨own.grow kept.2.toGrows, genuine⟩ fun _ => rfl
  | refreeze present own is =>
      refine .goes_on core ?_ fun _ => rfl
      rw [PhaseHolds, holds.1]
      exact holds.2
  | finish found completed held =>
      obtain ⟨job, admits⟩ := holds.1.subject
      obtain rfl := Option.some.inj (found.symm.trans admits.found)
      exact .returned core ⟨_, _, admits, completed, held⟩
  | @account receipt ref item snapshot revision costs =>
      obtain ⟨own, genuine⟩ := holds
      refine ⟨{ core with
          recorded := core.records_append own genuine
          completed := fun key job admits completed => ?_ },
        { (Quiet.refl ledger).toGrows with recorded := List.subset_append_left _ _ },
        fun _ => { Quiet.refl ledger with recorded := List.subset_append_left _ _ }, ?_, by rintro _ ⟨⟩⟩
      · obtain ⟨attempt, result, only, held, inside⟩ := core.completed key job admits completed
        exact ⟨attempt, result, only, held, List.mem_append_left _ inside⟩
      · rintro _ ⟨⟩
        exact ⟨⟨⟨own.subject, own.imported⟩, List.mem_append_right _ (List.mem_singleton_self _)⟩, fun _ => rfl⟩
  | @complete receipt ref result data registry decoded read is event =>
      obtain ⟨own, inside⟩ := holds
      obtain ⟨after, found, completed, held, job, earlier, spec⟩ := event.complete_spec core.named decoded read
      have only : ledger.imports = [receipt.claim.attemptId] := by
        have imported := own.imported
        have short := core.short
        match imports : ledger.imports with
        | [] => simp [imports] at imported
        | [attempt] => simp_all
        | _ :: _ :: _ => simp [imports] at short
      have kept := core.event event (List.Subset.refl _) core.recorded (by rintro ⟨⟩) (by rintro ⟨⟩) (by
        intro _ claim other decoded_claim decoded_result _ _
        obtain rfl := Option.some.inj (decoded.symm.trans decoded_claim)
        obtain rfl := Option.some.inj (read.symm.trans decoded_result)
        exact ⟨_, only, is.costs ▸ inside⟩)
      refine ⟨kept.1, kept.2.toGrows, fun _ => kept.2, by rintro _ ⟨⟩, ?_⟩
      rintro _ ⟨⟩
      obtain ⟨before, admits⟩ := own.subject
      obtain rfl := Option.some.inj (earlier.symm.trans admits.found)
      exact ⟨_, after, admits.follow found spec, completed, held⟩
  | completed found completed held is =>
      obtain ⟨job, admits⟩ := holds.1.subject
      obtain rfl := Option.some.inj (found.symm.trans admits.found)
      exact .returned core ⟨_, _, admits, completed, held⟩
  | recovered found actual configured completed held =>
      obtain ⟨job, admits⟩ := holds
      obtain rfl := Option.some.inj (found.symm.trans admits.found)
      exact .returned core ⟨_, _, admits, completed, held⟩
  | «open» found actual configured pending => exact .goes_on core holds fun _ => rfl
  | select snapshot revision only stored => exact .goes_on core holds fun _ => rfl
  | trust accepted =>
      refine .goes_on core ?_ fun _ => rfl
      rw [PhaseHolds, accepted.own]
      exact own_of_isSourceRecord core accepted (.inr holds)

end

end SourceAdmission

end FeatureRl
