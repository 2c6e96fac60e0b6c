import FeatureRl.Pipeline.GradeJobs

/-!
The invariant of a grade job: what stored pending and original results say, what the charges of the job
count, and how an event of the registry keeps both.
-/

namespace FeatureRl

open Checked
open Artifacts (ArtifactStore Hashing)
open State (Named AttemptsNamed JobsChange)

namespace GradeJobs

variable {setting : Setting} {world next : World}

/-! ### What is stored -/

/-- Whoever reads the reference as this kind reads these bytes. -/
def Holds (setting : Setting) (store : ArtifactStore) (ref : ArtifactRef) (kind : Identifier) (data : Bytes) :
    Prop :=
  ∀ later, store.Extends later → ∀ cap raw, readBytes setting.hashing later ref cap kind = .ok raw → raw = data

def KeptAs (setting : Setting) (store : ArtifactStore) (claim : Claim) (ref : ArtifactRef)
    (pending : GradePublicationFailed) : Prop :=
  ∀ later, store.Extends later → ∀ other result, recoverPending setting.hashing later other ref = .ok result ↔
    other = claim ∧ result = (setting.request, pending) ∧ Readable pending

/-- The publication leads to the same result with the same costs. -/
structure Same (setting : Setting) (graded pending : GradePublicationFailed) : Prop where
  final : finalResult setting.hashing setting.graderRevision pending =
    finalResult setting.hashing setting.graderRevision graded
  costs : pending.costs = graded.costs

def Pending (setting : Setting) (world : World) (pending : GradePublicationFailed) : Prop :=
  ∃ graded, world.outcome = some graded ∧ Same setting graded pending

def Result (setting : Setting) (world : World) (result : OperationResult) : Prop :=
  ∃ graded, world.outcome = some graded ∧
    finalResult setting.hashing setting.graderRevision graded = some result

def IsOriginal (setting : Setting) (world : World) (ref : ArtifactRef) : Prop :=
  ∃ result, Result setting world result ∧
    Holds setting world.store ref originalKind (OperationResult.codec.dump result)

def IsPending (setting : Setting) (world : World) (ref : ArtifactRef) : Prop :=
  ∃ pending claim, Pending setting world pending ∧ KeptAs setting world.store claim ref pending

/-- The costs are those of what the grader returned. -/
def Accounts (setting : Setting) (world : World) (costs : List CostRecord) : Prop :=
  ∀ graded, world.outcome = some graded → costs = setting.actualCosts graded.costs

/-- The receipts of an observation stand for what the grader returned. -/
structure Good (setting : Setting) (world : World) (observation : CostObservation) : Prop where
  originals : ∀ ref ∈ observation.receipts.val, ref.kind = originalKind →
    IsOriginal setting world ref ∧ Accounts setting world observation.costs
  pendings : ∀ ref ∈ observation.receipts.val, ref.kind = pendingKind → IsPending setting world ref

/-- The receipt, the disposition and the costs are those of what the grader returned. -/
def Agrees (setting : Setting) (world : World) (result : OperationResult) : Prop :=
  ∃ graded final, world.outcome = some graded ∧
    finalResult setting.hashing setting.graderRevision graded = some final ∧
    result.disposition = final.disposition ∧ result.artifacts.head? = final.artifacts.head? ∧
    result.costs = setting.actualCosts graded.costs

/-! ### Growth -/

structure Grows (world next : World) : Prop where
  store : world.store.Extends next.store
  outcome : ∀ graded, world.outcome = some graded → next.outcome = some graded

theorem Grows.refl (world : World) : Grows world world := ⟨.refl _, fun _ same => same⟩

theorem Holds.grow {store later : ArtifactStore} {ref : ArtifactRef} {kind : Identifier} {data : Bytes}
    (holds : Holds setting store ref kind data) (larger : store.Extends later) :
    Holds setting later ref kind data :=
  fun last further => holds last (larger.trans further)

theorem KeptAs.grow {store later : ArtifactStore} {claim : Claim} {ref : ArtifactRef}
    {pending : GradePublicationFailed} (kept : KeptAs setting store claim ref pending)
    (larger : store.Extends later) : KeptAs setting later claim ref pending :=
  fun last further => kept last (larger.trans further)

theorem Pending.grow {pending : GradePublicationFailed} (holds : Pending setting world pending)
    (grows : Grows world next) : Pending setting next pending := by
  obtain ⟨graded, outcome, same⟩ := holds
  exact ⟨graded, grows.outcome graded outcome, same⟩

theorem Result.grow {result : OperationResult} (holds : Result setting world result) (grows : Grows world next) :
    Result setting next result := by
  obtain ⟨graded, outcome, final⟩ := holds
  exact ⟨graded, grows.outcome graded outcome, final⟩

theorem IsOriginal.grow {ref : ArtifactRef} (original : IsOriginal setting world ref) (grows : Grows world next) :
    IsOriginal setting next ref := by
  obtain ⟨result, holds, stored⟩ := original
  exact ⟨result, holds.grow grows, stored.grow grows.store⟩

theorem IsPending.grow {ref : ArtifactRef} (pending : IsPending setting world ref) (grows : Grows world next) :
    IsPending setting next ref := by
  obtain ⟨grade, claim, holds, stored⟩ := pending
  exact ⟨grade, claim, holds.grow grows, stored.grow grows.store⟩

/-- Costs stay those of the outcome once there is one. -/
theorem Accounts.grow {costs : List CostRecord} (accounts : Accounts setting world costs)
    (graded : ∃ graded, world.outcome = some graded) (grows : Grows world next) : Accounts setting next costs := by
  obtain ⟨grade, outcome⟩ := graded
  intro other same
  obtain rfl := Option.some.inj ((grows.outcome grade outcome).symm.trans same)
  exact accounts grade outcome

theorem Good.grow {observation : CostObservation} (good : Good setting world observation)
    (grows : Grows world next) : Good setting next observation where
  originals ref member kind := by
    obtain ⟨original, accounts⟩ := good.originals ref member kind
    refine ⟨original.grow grows, accounts.grow ?_ grows⟩
    obtain ⟨_, ⟨graded, outcome, _⟩, _⟩ := original
    exact ⟨graded, outcome⟩
  pendings ref member kind := (good.pendings ref member kind).grow grows

theorem Agrees.grow {result : OperationResult} (agrees : Agrees setting world result) (grows : Grows world next) :
    Agrees setting next result := by
  obtain ⟨graded, final, outcome, rest⟩ := agrees
  exact ⟨graded, final, grows.outcome graded outcome, rest⟩

theorem readBytes_kind {hashing : Hashing} {store : ArtifactStore} {ref : ArtifactRef} {cap : Nat}
    {kind : Identifier} {raw : Bytes} (read : readBytes hashing store ref cap kind = .ok raw) :
    ref.kind = kind := by
  simp only [readBytes, bind_eq_ok, refuse_eq_ok, not_or, not_not] at read
  exact read.choose_spec.1.2

theorem putRecord_holds {store later : ArtifactStore} {raw : Bytes} {kind : Identifier} {ref : ArtifactRef}
    (short : kind.val.length ≤ 1000) (put : putRecord setting.hashing store raw kind = .ok (later, ref)) :
    store.Extends later ∧ ref.kind = kind ∧ Holds setting later ref kind raw := by
  simp only [putRecord, bind_eq_ok, refuse_eq_ok, not_lt] at put
  obtain ⟨_, _, written⟩ := put
  have wrote := ArtifactStore.put_wrote (ArtifactStore.putBytes_eq_ok.mp written).2
  refine ⟨wrote.larger, ?_, fun last larger cap other read => ((readBytes_put short written larger).mp read).1⟩
  rw [wrote.refOf]
  rfl

theorem retainPending_kept {store later : ArtifactStore} {claim : Claim} {pending : GradePublicationFailed}
    {ref : ArtifactRef}
    (retained : retainPending setting.hashing store claim setting.request pending = .ok (later, ref)) :
    store.Extends later ∧ ref.kind = pendingKind ∧ KeptAs setting later claim ref pending := by
  have whole := retained
  simp only [retainPending, bind_eq_ok] at retained
  obtain ⟨⟨middle, publications⟩, published, put⟩ := retained
  obtain ⟨larger, kind, _⟩ := @putRecord_holds setting _ _ _ _ _ (by decide) put
  exact ⟨(putPublications_eq_ok published).1.trans larger, kind,
    fun last further other result => recoverPending_iff whole further other result⟩

/-! ### The world -/

structure Core (setting : Setting) (world : World) : Prop where
  named : Named world.registry
  attempts_named : AttemptsNamed world.registry
  keyed : ∀ key job, world.registry.jobs.get? key = some job → job.spec = setting.spec → key = setting.key
  job : ∀ job, world.registry.jobs.get? setting.key = some job →
    job.spec = setting.spec ∧ job.attempts = world.claims.map Claim.attemptId
  backed : world.claims ≠ [] → ∃ job, world.registry.jobs.get? setting.key = some job
  short : world.claims.length ≤ 1
  dispatched : ∀ graded, world.outcome = some graded → world.dispatched ≠ []
  observed : ∀ claim ∈ world.claims, ∀ item ∈ world.registry.observations.values,
    item.attemptId = claim.attemptId → Good setting world item.observation
  accepted : ∀ entry ∈ world.accepted, KeptAs setting world.store entry.claim entry.ref entry.pending
  completed : ∀ job, world.registry.jobs.get? setting.key = some job → job.state = .completed →
    ∃ result, job.result = some result ∧ Agrees setting world result

/-- Changes beside the registry. -/
theorem Core.change (core : Core setting world) (registry : next.registry = world.registry)
    (claims : next.claims = world.claims) (grows : Grows world next)
    (dispatched : ∀ graded, next.outcome = some graded → next.dispatched ≠ [])
    (accepted : ∀ entry ∈ next.accepted, KeptAs setting next.store entry.claim entry.ref entry.pending) :
    Core setting next where
  named := registry ▸ core.named
  attempts_named := registry ▸ core.attempts_named
  keyed := registry ▸ core.keyed
  job := registry ▸ claims ▸ core.job
  backed := registry ▸ claims ▸ core.backed
  short := claims ▸ core.short
  dispatched := dispatched
  observed claim member item present own := by
    rw [claims] at member
    rw [registry] at present
    exact (core.observed claim member item present own).grow grows
  accepted := accepted
  completed job found completed := by
    rw [registry] at found
    obtain ⟨result, held, agrees⟩ := core.completed job found completed
    exact ⟨result, held, agrees.grow grows⟩

theorem Grows.registry (world : World) (registry : State) : Grows world { world with registry := registry } :=
  ⟨.refl _, fun _ same => same⟩

/-- Registry events that neither enqueue nor claim the job. -/
theorem Core.event (core : Core setting world) {action : Action} {data : Json.Members} {registry : State}
    (event : State.Step setting.sha256 world.registry data action registry)
    (enqueues : action = .enqueue → ∀ spec, JobSpec.codec.validate (member data "spec") = some spec →
      spec ≠ setting.spec ∧ State.jobKey setting.sha256 spec ≠ setting.key)
    (claims : action = .claim → ∀ claim, Claim.codec.validate (member data "claim") = some claim →
      claim.jobId ≠ setting.key)
    (reconciles : action = .reconcile → ∀ claim observation,
      Claim.codec.validate (member data "claim") = some claim →
      CostObservation.codec.validate (member data "observation") = some observation →
      ∀ other ∈ world.claims, claim.attemptId = other.attemptId → Good setting world observation)
    (completes : action = .complete → ∀ claim result,
      Claim.codec.validate (member data "claim") = some claim →
      OperationResult.codec.validate (member data "result") = some result → claim.jobId = setting.key →
      Agrees setting world result) :
    Core setting { world with registry := registry } := by
  have change := State.Step.jobsChange core.named event
  have grows := Grows.registry world registry
  refine ⟨core.named.step event, core.attempts_named.step event, ?_, ?_, ?_, core.short, core.dispatched, ?_,
    core.accepted, ?_⟩
  · intro key job found same
    rcases change.follows found with ⟨before, earlier, follows⟩ | ⟨enqueued, _, spec, decoded, rfl⟩
    · exact core.keyed key before earlier (follows.spec ▸ same)
    · exact absurd same (enqueues enqueued spec decoded).1
  · intro job found
    obtain ⟨before, earlier, spec, attempts⟩ := change.attempts_at
      (fun enqueued spec decoded => (enqueues enqueued spec decoded).2) claims found
    rw [spec, attempts]
    exact core.job before earlier
  · intro claimed
    obtain ⟨job, found⟩ := core.backed claimed
    obtain ⟨after, later, _⟩ := change.kept found
    exact ⟨after, later⟩
  · intro claim member item present own
    rcases event.observed present with old | ⟨reconciling, other, decoded, observation, of_claim⟩
    · exact (core.observed claim member item old own).grow grows
    · exact (reconciles reconciling other _ decoded observation claim member (of_claim.symm.trans own)).grow grows
  · intro job found completed
    rcases event.completed core.named found completed with before | ⟨completing, claim, result, by_claim⟩
    · obtain ⟨result, held, agrees⟩ := core.completed job before completed
      exact ⟨result, held, agrees.grow grows⟩
    · exact ⟨result, by_claim.result,
        (completes completing claim result by_claim.decoded by_claim.read by_claim.at_claim).grow grows⟩

theorem snapshot_observed {state : State} {claim : Claim} {item : ObservationRecord}
    (snapshot : Snapshot state claim item) :
    item ∈ state.observations.values ∧ item.attemptId = claim.attemptId := by
  obtain ⟨listed, _⟩ := snapshot
  simp only [observations, bind_eq_ok] at listed
  obtain ⟨report, reported, done⟩ := listed
  have member : item ∈ report.observations.filter fun item => item.attemptId = claim.attemptId := by
    rw [Except.ok.inj done]
    exact List.mem_singleton_self item
  obtain ⟨inside, own⟩ := List.mem_filter.mp member
  exact ⟨State.accounting_observed reported inside, by simpa using own⟩

/-- An observation of what stands for the outcome keeps the invariant. -/
theorem Core.observes (core : Core setting world) {claim : Claim} {refs : List ArtifactRef}
    {costs : List CostRecord} {registry : State}
    (observes : Observes setting world.registry claim refs costs registry)
    (originals : ∀ ref ∈ refs, ref.kind = originalKind → IsOriginal setting world ref)
    (pendings : ∀ ref ∈ refs, ref.kind = pendingKind → IsPending setting world ref)
    (accounts : Accounts setting world costs) : Core setting { world with registry := registry } := by
  cases observes with
  | @first data observation _ absent decoded observed is event =>
      refine core.event event (by rintro ⟨⟩) (by rintro ⟨⟩) ?_ (by rintro ⟨⟩)
      intro _ other found _ decoded_observation _ _ _
      obtain rfl := Option.some.inj (observed.symm.trans decoded_observation)
      have receipts : ∀ ref ∈ observation.receipts.val, ref ∈ refs := by
        intro ref member
        rw [is.receipts] at member
        exact List.mem_eraseDups.mp member
      refine ⟨fun ref member kind => ?_, fun ref member kind => pendings ref (receipts ref member) kind⟩
      exact ⟨originals ref (receipts ref member) kind, is.same_costs ▸ accounts⟩
  | @further item data observation _ snapshot decoded observed is event =>
      refine core.event event (by rintro ⟨⟩) (by rintro ⟨⟩) ?_ (by rintro ⟨⟩)
      intro _ other found decoded_claim decoded_observation holder member same
      obtain rfl := Option.some.inj (decoded.symm.trans decoded_claim)
      obtain rfl := Option.some.inj (observed.symm.trans decoded_observation)
      obtain ⟨present, own⟩ := snapshot_observed snapshot
      have old := core.observed holder member item present (own.trans same)
      have receipts : ∀ ref ∈ observation.receipts.val, ref ∈ item.observation.receipts.val ∨ ref ∈ refs := by
        intro ref inside
        rw [is.receipts] at inside
        exact List.mem_append.mp (List.mem_eraseDups.mp inside)
      constructor
      · intro ref inside kind
        rcases receipts ref inside with earlier | added
        · exact ⟨(old.originals ref earlier kind).1, is.same_costs ▸ accounts⟩
        · exact ⟨originals ref added kind, is.same_costs ▸ accounts⟩
      · intro ref inside kind
        rcases receipts ref inside with earlier | added
        · exact old.pendings ref earlier kind
        · exact pendings ref added kind
  | again present own linked same_costs => exact core

/-- A snapshot that a validated call reads stands for the outcome. -/
theorem Core.good (core : Core setting world) {claim : Claim} {job : JobRecord} {item : ObservationRecord}
    (valid : Validated setting world.registry claim job) (snapshot : Snapshot world.registry claim item) :
    Good setting world item.observation := by
  obtain ⟨found, spec, id, inside, attempt, at_id, of_claim⟩ := valid
  obtain ⟨present, own⟩ := snapshot_observed snapshot
  rw [core.keyed _ job found spec] at found
  rw [(core.job job found).2] at inside
  obtain ⟨other, member, same⟩ := List.mem_map.mp inside
  refine core.observed other member item present ?_
  rw [own, ← of_claim, core.attempts_named id attempt at_id, same]

theorem Core.held (core : Core setting world) {job : JobRecord} {result : OperationResult}
    (found : world.registry.jobs.get? setting.key = some job) (completed : job.state = .completed)
    (held : job.result = some result) : Agrees setting world result := by
  obtain ⟨other, same, agrees⟩ := core.completed job found completed
  obtain rfl := Option.some.inj (held.symm.trans same)
  exact agrees

theorem Core.validated_held (core : Core setting world) {claim : Claim} {job : JobRecord}
    {result : OperationResult} (valid : Validated setting world.registry claim job)
    (completed : job.state = .completed) (held : job.result = some result) : Agrees setting world result := by
  obtain ⟨found, spec, _⟩ := valid
  rw [core.keyed _ job found spec] at found
  exact core.held found completed held

theorem Core.enqueue (core : Core setting world) {data : Json.Members} {registry : State}
    (decoded : JobSpec.codec.validate (member data "spec") = some setting.spec)
    (event : State.Step setting.sha256 world.registry data .enqueue registry) :
    Core setting { world with registry := registry } := by
  obtain ⟨fresh, jobs⟩ := event.enqueue_spec decoded
  change world.registry.jobs.get? setting.key = none at fresh
  change registry.jobs = world.registry.jobs.set setting.key (State.newJob setting.key setting.spec) at jobs
  have unclaimed : world.claims = [] := by
    by_contra claimed
    obtain ⟨job, found⟩ := core.backed claimed
    rw [fresh] at found
    cases found
  have added : ∀ job, registry.jobs.get? setting.key = some job → job = State.newJob setting.key setting.spec := by
    intro job found
    rw [jobs, Dict.get?_set_self] at found
    exact (Option.some.inj found).symm
  refine ⟨core.named.step event, core.attempts_named.step event, ?_, ?_, fun claimed => absurd unclaimed claimed,
    core.short, core.dispatched, ?_, core.accepted, ?_⟩
  · intro key job found same
    rw [jobs, Dict.get?_set] at found
    split at found
    next at_key => exact at_key
    next => exact core.keyed key job found same
  · intro job found
    rw [added job found]
    exact ⟨rfl, by rw [unclaimed]; rfl⟩
  · intro claim member
    change claim ∈ world.claims at member
    rw [unclaimed] at member
    cases member
  · intro job found completed
    rw [added job found] at completed
    cases completed

theorem Core.claim (core : Core setting world) {claim : Claim} {data : Json.Members} {registry : State}
    (decoded : Claim.codec.validate (member data "claim") = some claim) (own : claim.jobId = setting.key)
    (unused : ∀ item ∈ world.registry.observations.values, item.attemptId ≠ claim.attemptId)
    (event : State.Step setting.sha256 world.registry data .claim registry) :
    Core setting { world with registry := registry, claims := world.claims ++ [claim] } := by
  obtain ⟨job, found, below, claimed⟩ := event.claim_spec core.named decoded
  rw [own] at found claimed
  obtain ⟨spec, attempts⟩ := core.job job found
  have none_yet : world.claims = [] := by
    rw [spec, setting.attemptLimit, attempts, List.length_map] at below
    exact List.length_eq_zero_iff.mp (by omega)
  have now : ∀ after, registry.jobs.get? setting.key = some after →
      after = { job with state := .running, attempts := job.attempts ++ [claim.attemptId] } := by
    intro after present
    exact Option.some.inj (present.symm.trans claimed)
  rw [none_yet, List.nil_append]
  refine ⟨core.named.step event, core.attempts_named.step event, ?_, ?_, fun _ => ⟨_, claimed⟩, by simp,
    core.dispatched, ?_, core.accepted, ?_⟩
  · intro key after present same
    rcases (State.Step.jobsChange core.named event).follows present with
      ⟨before, earlier, follows⟩ | ⟨enqueued, _⟩
    · exact core.keyed key before earlier (follows.spec ▸ same)
    · cases enqueued
  · intro after present
    rw [now after present]
    refine ⟨spec, ?_⟩
    simp [attempts, none_yet]
  · intro other member item present same
    obtain rfl := List.mem_singleton.mp member
    rcases event.observed present with old | ⟨reconciling, _⟩
    · exact absurd same (unused item old)
    · cases reconciling
  · intro after present completed
    rw [now after present] at completed
    cases completed

end GradeJobs

end FeatureRl
