import FeatureRl.Contracts.Samples
import FeatureRl.Pipeline.Lifecycle

/-!
A released task has the payload of an unqualified built one that an accepted report binds,
and it got its state from that one step by step.
-/

namespace FeatureRl

open Checked

namespace Pipeline

section

variable {view : View} {store next : Store} {addressing : Addressing}

/-! ### Reads and writes -/

theorem get_eq_ok {cap : Nat} {ref : ArtifactRef} {artifact : Artifact}
    (found : store.get addressing cap ref = .ok artifact) : store.get? ref = some artifact := by
  rw [Store.get] at found
  split at found
  next => cases found
  next present =>
    split at found
    next => cases found
    next =>
      rw [present]
      exact congrArg some (Except.ok.inj found)

theorem read_eq_ok {cap : Nat} {ref : ArtifactRef} {artifact : Artifact}
    (found : view.read cap ref = .ok artifact) : view.store.get? ref = some artifact := by
  rw [View.read, bind_eq_ok] at found
  obtain ⟨_, _, found⟩ := found
  exact get_eq_ok found

theorem asTask_eq_ok {artifact : Artifact} {task : TaskBundle} (shown : asTask artifact = .ok task) :
    artifact = .task task := by
  cases artifact with
  | task other => rw [Except.ok.inj shown]
  | report => cases shown
  | verifier => cases shown
  | policy => cases shown

theorem asReport_eq_ok {artifact : Artifact} {report : QualificationReport}
    (shown : asReport artifact = .ok report) : artifact = .report report := by
  cases artifact with
  | report other => rw [Except.ok.inj shown]
  | task => cases shown
  | verifier => cases shown
  | policy => cases shown

theorem task_eq_ok {ref : ArtifactRef} {task : TaskBundle} (found : TaskLifecycle.task view ref = .ok task) :
    view.store.get? ref = some (.task task) := by
  rw [TaskLifecycle.task, bind_eq_ok] at found
  obtain ⟨artifact, read, shown⟩ := found
  rw [read_eq_ok read, asTask_eq_ok shown]

/-- Nothing that is stored is ever replaced. -/
theorem put_keeps {artifact : Artifact} {ref : ArtifactRef}
    (stored : store.put addressing artifact = .ok (next, ref)) {other : ArtifactRef} {old : Artifact}
    (found : store.get? other = some old) : next.get? other = some old := by
  rw [Store.put] at stored
  split at stored
  next fresh =>
    obtain ⟨rfl, rfl⟩ := Prod.mk.inj (Except.ok.inj stored)
    rw [Dict.get?_set_ne, found]
    rintro rfl
    rw [fresh] at found
    cases found
  next =>
    split at stored
    next =>
      obtain ⟨rfl, _⟩ := Prod.mk.inj (Except.ok.inj stored)
      exact found
    next => cases stored

theorem put_adds {artifact : Artifact} {ref : ArtifactRef}
    (stored : store.put addressing artifact = .ok (next, ref)) {other : ArtifactRef} {found : Artifact}
    (present : next.get? other = some found) : store.get? other = some found ∨ found = artifact := by
  rw [Store.put] at stored
  split at stored
  next =>
    obtain ⟨rfl, rfl⟩ := Prod.mk.inj (Except.ok.inj stored)
    rw [Dict.get?_set] at present
    split at present
    next => exact .inr (Option.some.inj present).symm
    next => exact .inl present
  next =>
    split at stored
    next =>
      obtain ⟨rfl, _⟩ := Prod.mk.inj (Except.ok.inj stored)
      exact .inl present
    next => cases stored

theorem put_finds {artifact : Artifact} {ref : ArtifactRef}
    (stored : store.put addressing artifact = .ok (next, ref)) : next.get? ref = some artifact := by
  rw [Store.put] at stored
  split at stored
  next =>
    obtain ⟨rfl, rfl⟩ := Prod.mk.inj (Except.ok.inj stored)
    exact Dict.get?_set_self _ _ _
  next existing present =>
    split at stored
    next same =>
      obtain ⟨rfl, rfl⟩ := Prod.mk.inj (Except.ok.inj stored)
      rw [present, same]
    next => cases stored

/-! ### Acceptance -/

/-- The accepted report that a payload is bound by. -/
structure Bound (store : Store) (subject : TaskSubject) (reportRef : ArtifactRef)
    (report : QualificationReport) : Prop where
  cited : store.get? reportRef = some (.report report)
  successful : report.disposition = .success
  root : ∃ built, store.get? report.task = some (.task built) ∧ built.state = .built ∧
    built.qualification = none ∧ built.subject = subject

theorem verifyAccepted_eq_ok {service : QualificationService} {taskRef reportRef : ArtifactRef}
    {report : QualificationReport}
    (verified : service.verifyAccepted view taskRef reportRef = .ok report) :
    view.store.get? reportRef = some (.report report) ∧ report.disposition = .success := by
  simp only [QualificationService.verifyAccepted, bind_eq_ok, refuse_eq_ok, not_not] at verified
  obtain ⟨_, _, artifact, read, shown, same, _, _, _, successful, _, _, _, _, _, _, _, _, _, _, _, _, _, _,
    _, _, _, _, _, _, result⟩ := verified
  obtain rfl := Except.ok.inj result
  rw [read_eq_ok read, asReport_eq_ok same]
  exact ⟨rfl, successful⟩

theorem accepted_eq_ok {lifecycle : TaskLifecycle} {taskRef reportRef : ArtifactRef} {later : TaskBundle}
    {report : QualificationReport} (accepted : lifecycle.accepted view taskRef later reportRef = .ok report) :
    lifecycle.qualification.verifyAccepted view taskRef reportRef = .ok report ∧
      Bound view.store later.subject reportRef report := by
  simp only [TaskLifecycle.accepted, bind_eq_ok, refuse_eq_ok, not_or, not_not,
    Bool.not_eq_false, unchanged_iff] at accepted
  obtain ⟨_, _, verified, checked, built, found, _, ⟨state, unqualified⟩, _, same, result⟩ := accepted
  obtain rfl := Except.ok.inj result
  obtain ⟨cited, successful⟩ := verifyAccepted_eq_ok checked
  exact ⟨checked, cited, successful, built, task_eq_ok found, state, unqualified, same⟩

/-- What a resolved task is. -/
structure Released (view : View) (ref : ArtifactRef) (task : TaskBundle) : Prop where
  stored : view.store.get? ref = some (.task task)
  state : task.state = .released
  bound : ∃ reportRef report, task.qualification = some reportRef ∧
    (∃ service : QualificationService, service.verifyAccepted view ref reportRef = .ok report) ∧
    Bound view.store task.subject reportRef report

theorem lifecycle_resolves {lifecycle : TaskLifecycle} {ref : ArtifactRef} {task : TaskBundle}
    (resolved : lifecycle.resolveReleased view ref = .ok task) : Released view ref task := by
  simp only [TaskLifecycle.resolveReleased, bind_eq_ok, refuse_eq_ok, require_eq_ok, not_not] at resolved
  obtain ⟨released, found, _, state, reportRef, cited, report, accepted, result⟩ := resolved
  obtain rfl := Except.ok.inj result
  obtain ⟨checked, bound⟩ := accepted_eq_ok accepted
  exact ⟨task_eq_ok found, state, reportRef, report, cited, ⟨_, checked⟩, bound⟩

theorem resolver_resolves {resolver : ReleasedTaskResolver} {ref : ArtifactRef} {task : TaskBundle}
    (resolved : resolver.resolveReleased view ref = .ok task) : Released view ref task := by
  simp only [ReleasedTaskResolver.resolveReleased, bind_eq_ok, refuse_eq_ok, require_eq_ok, not_not, not_or,
    Bool.not_eq_false, unchanged_iff] at resolved
  obtain ⟨_, _, released, found, _, state, reportRef, cited, _, _, _, _, _, _, _, _, _, _, _, _, _, _, _, _,
    _, _, report, verified, artifact, read, built, shown, _, ⟨fresh, unqualified⟩, _, same, result⟩ := resolved
  obtain rfl := Except.ok.inj result
  obtain ⟨present, successful⟩ := verifyAccepted_eq_ok verified
  refine ⟨task_eq_ok found, state, reportRef, report, cited, ⟨_, verified⟩, present, successful, built, ?_,
    fresh, unqualified, same⟩
  rw [get_eq_ok read, asTask_eq_ok shown]

/-! ### Transitions -/

theorem lookup_of_key {members changes : Json.Members} {key : String}
    (absent : key ∉ changes.map Prod.fst) : (changes.lookup key).or (members.lookup key) = members.lookup key := by
  have missing : changes.lookup key = none := by
    rw [List.lookup_eq_none_iff]
    intro entry inside
    rw [bne_iff_ne]
    rintro rfl
    exact absent (List.mem_map_of_mem inside)
  rw [missing, Option.none_or]

theorem bundle_read {lookup : String → Option Json} {subject : TaskSubject} {state : TaskState}
    {qualification : ArtifactRef} (kept : TaskSubject.fields.read lookup = some subject)
    (changed : lookup "state" = some (TaskState.codec.document state))
    (cited : lookup "qualification" = some (TaskBundle.optionalRef.document (some qualification))) :
    TaskBundle.fields.read lookup = TaskBundle.create subject state (some qualification) := by
  rw [TaskBundle.fields, Fields.view_read, Fields.and_read, Fields.and_read, Fields.field_read,
    Fields.field_read, kept, changed, cited]
  simp only [Option.bind_some, Codec.validate_document]

/-- Moving a task changes its state and its qualification only. -/
theorem moved_eq (prior : TaskBundle) (state : TaskState) (qualification : ArtifactRef) :
    prior.moved state qualification = TaskBundle.create prior.subject state (some qualification) := by
  have unique : ((TaskBundle.fields.members prior).map Prod.fst).Nodup := by
    rw [TaskBundle.fields.members_keys]
    decide
  have other : ∀ key ∈ TaskSubject.fields.keys, key ∉ ["state", "qualification"] := by decide
  rw [TaskBundle.moved, Fields.updated, @bundle_read _ prior.subject]
  · refine TaskSubject.fields.read_members prior.subject _ fun member inside => ?_
    have key : member.1 ∈ TaskSubject.fields.keys := by
      rw [← TaskSubject.fields.members_keys prior.subject]
      exact List.mem_map_of_mem inside
    rw [lookup_of_key (other member.1 key)]
    exact Dict.lookup_of_mem unique (List.mem_append_left _ inside)
  · rfl
  · rfl

/-- The state that a destination is reached from. -/
def Destination.source : Destination → TaskState
  | .qualified => .built
  | .released => .qualified

/-- The qualification of a predecessor that is moved by a report. -/
def Destination.cited (reportRef : ArtifactRef) : Destination → Option ArtifactRef
  | .qualified => none
  | .released => some reportRef

/-- One manifest is another one moved on by a report. -/
structure Successor (store : Store) (destination : Destination) (reportRef : ArtifactRef)
    (prior target : TaskBundle) : Prop where
  source : prior.state = destination.source
  unmoved : prior.qualification = destination.cited reportRef
  state : target.state = destination.state
  qualification : target.qualification = some reportRef
  same : target.subject = prior.subject
  bound : ∃ report, Bound store prior.subject reportRef report

/-- A successful operation published the successor of the manifest it read. -/
def Advanced (store next : Store) (destination : Destination) (predecessor ref : ArtifactRef) : Prop :=
  ∃ prior target reportRef, store.get? predecessor = some (.task prior) ∧
    next.get? ref = some (.task target) ∧ Successor store destination reportRef prior target

theorem citation_eq_ok {destination : Destination} {prior : TaskBundle} {reportRef cited : ArtifactRef}
    (allowed : citation destination prior reportRef = .ok cited) :
    prior.state = destination.source ∧ prior.qualification = destination.cited cited := by
  cases destination with
  | qualified =>
      rw [citation] at allowed
      split at allowed
      next => cases allowed
      next legal =>
        rw [not_or, not_not, not_not] at legal
        exact legal
  | released =>
      rw [citation] at allowed
      split at allowed
      next => cases allowed
      next legal =>
        rw [not_not] at legal
        exact ⟨legal, require_eq_ok.mp allowed⟩

theorem transition_eq_ok {lifecycle : TaskLifecycle} {predecessor reportRef ref : ArtifactRef}
    {destination : Destination}
    (moved : lifecycle.transition view predecessor reportRef destination = .ok (next, ref)) :
    ∃ prior target cited, view.store.get? predecessor = some (.task prior) ∧
      view.store.put view.addressing (.task target) = .ok (next, ref) ∧
      Successor view.store destination cited prior target := by
  simp only [TaskLifecycle.transition, bind_eq_ok, require_eq_ok] at moved
  obtain ⟨prior, found, cited, allowed, report, accepted, _, _, target, changed, _, _, stored⟩ := moved
  obtain ⟨source, unmoved⟩ := citation_eq_ok allowed
  rw [moved_eq] at changed
  obtain ⟨same, state, qualification⟩ := TaskBundle.create_eq_some changed
  exact ⟨prior, target, cited, task_eq_ok found, stored, source, unmoved, state, qualification, same,
    report, (accepted_eq_ok accepted).2⟩

theorem operate_advances {lifecycle : TaskLifecycle} {predecessor reportRef ref : ArtifactRef}
    {destination : Destination}
    (reported : ref ∈ (lifecycle.operate view predecessor reportRef destination).2.artifacts) :
    Advanced view.store (lifecycle.operate view predecessor reportRef destination).1 destination
      predecessor ref := by
  rw [TaskLifecycle.operate] at reported ⊢
  split at reported
  next store published moved =>
    split at reported
    next =>
      obtain rfl := List.mem_singleton.mp reported
      obtain ⟨prior, target, cited, found, stored, successor⟩ := transition_eq_ok moved
      exact ⟨prior, target, cited, found, put_finds stored, successor⟩
    next => cases reported
  next => cases reported

/-- An operation publishes one manifest or nothing. -/
theorem operate_store (lifecycle : TaskLifecycle) (view : View) (predecessor reportRef : ArtifactRef)
    (destination : Destination) :
    (lifecycle.operate view predecessor reportRef destination).1 = view.store ∨
      ∃ prior target cited ref, view.store.get? predecessor = some (.task prior) ∧
        view.store.put view.addressing (.task target) =
          .ok ((lifecycle.operate view predecessor reportRef destination).1, ref) ∧
        Successor view.store destination cited prior target := by
  rw [TaskLifecycle.operate]
  split
  next store ref moved =>
    obtain ⟨prior, target, cited, found, stored, successor⟩ := transition_eq_ok moved
    exact .inr ⟨prior, target, cited, ref, found, stored, successor⟩
  next => exact .inl rfl

/-! ### Runs -/

/-- How a stored manifest got its state. -/
def Lineage (store : Store) (task : TaskBundle) : Prop :=
  match task.state with
  | .built => task.qualification = none
  | .qualified => ∃ ref built reportRef, store.get? ref = some (.task built) ∧
      Successor store .qualified reportRef built task
  | .released => ∃ ref qualified reportRef, store.get? ref = some (.task qualified) ∧
      Successor store .released reportRef qualified task
  | _ => False

def Recorded (store : Store) : Prop :=
  ∀ ref task, store.get? ref = some (.task task) → Lineage store task

theorem Bound.grows {subject : TaskSubject} {reportRef : ArtifactRef} {report : QualificationReport}
    (bound : Bound store subject reportRef report)
    (kept : ∀ ref artifact, store.get? ref = some artifact → next.get? ref = some artifact) :
    Bound next subject reportRef report := by
  obtain ⟨built, found, root⟩ := bound.root
  exact ⟨kept _ _ bound.cited, bound.successful, built, kept _ _ found, root⟩

theorem Successor.grows {destination : Destination} {reportRef : ArtifactRef} {prior target : TaskBundle}
    (successor : Successor store destination reportRef prior target)
    (kept : ∀ ref artifact, store.get? ref = some artifact → next.get? ref = some artifact) :
    Successor next destination reportRef prior target := by
  obtain ⟨report, bound⟩ := successor.bound
  exact { successor with bound := ⟨report, bound.grows kept⟩ }

theorem Lineage.grows {task : TaskBundle} (lineage : Lineage store task)
    (kept : ∀ ref artifact, store.get? ref = some artifact → next.get? ref = some artifact) :
    Lineage next task := by
  rw [Lineage] at lineage ⊢
  split at lineage
  next state => exact lineage
  next state =>
    obtain ⟨ref, prior, reportRef, found, successor⟩ := lineage
    exact ⟨ref, prior, reportRef, kept _ _ found, successor.grows kept⟩
  next state =>
    obtain ⟨ref, prior, reportRef, found, successor⟩ := lineage
    exact ⟨ref, prior, reportRef, kept _ _ found, successor.grows kept⟩
  next => exact lineage.elim

theorem Successor.lineage {destination : Destination} {reportRef predecessor : ArtifactRef}
    {prior target : TaskBundle} (successor : Successor store destination reportRef prior target)
    (found : store.get? predecessor = some (.task prior)) : Lineage store target := by
  rw [Lineage, successor.state]
  cases destination with
  | qualified => exact ⟨predecessor, prior, reportRef, found, successor⟩
  | released => exact ⟨predecessor, prior, reportRef, found, successor⟩

/-- Publishing a manifest keeps the record when that manifest has a lineage in the store it is put into. -/
theorem Recorded.put {artifact : Artifact} {ref : ArtifactRef} (recorded : Recorded store)
    (stored : store.put addressing artifact = .ok (next, ref))
    (described : ∀ task, artifact = .task task → Lineage store task) : Recorded next := by
  intro other task found
  have kept : ∀ ref artifact, store.get? ref = some artifact → next.get? ref = some artifact :=
    fun _ _ present => put_keeps stored present
  rcases put_adds stored found with old | new
  · exact (recorded other task old).grows kept
  · exact (described task new.symm).grows kept

theorem Recorded.operate {lifecycle : TaskLifecycle} (recorded : Recorded view.store)
    (predecessor reportRef : ArtifactRef) (destination : Destination) :
    Recorded (lifecycle.operate view predecessor reportRef destination).1 := by
  rcases operate_store lifecycle view predecessor reportRef destination with
    unchanged | ⟨prior, target, cited, ref, found, stored, successor⟩
  · rwa [unchanged]
  · refine recorded.put stored fun task same => ?_
    obtain rfl := Artifact.task.inj same
    exact successor.lineage found

theorem Step.recorded (step : Step addressing store next) (recorded : Recorded store) : Recorded next := by
  cases step with
  | build state unqualified stored =>
      refine recorded.put stored fun task same => ?_
      obtain rfl := Artifact.task.inj same
      rw [Lineage, state]
      exact unqualified
  | publish other stored => exact recorded.put stored fun task same => (other task same).elim
  | qualify lifecycle usable registers builtTask acceptedReport =>
      exact @Recorded.operate ⟨addressing, store, usable, registers⟩ lifecycle recorded _ _ _
  | release lifecycle usable registers qualifiedTask =>
      exact @Recorded.operate ⟨addressing, store, usable, registers⟩ lifecycle recorded _ _ _

theorem Reached.recorded (reached : Reached addressing store) : Recorded store := by
  induction reached with
  | empty => exact fun ref task found => by cases found
  | step _ step recorded => exact step.recorded recorded

end

/-- The first part holds over every store, whatever was forged into it. -/
theorem lifecycle_sound :
    (∀ (view : View) (lifecycle : TaskLifecycle) (resolver : ReleasedTaskResolver) (ref : ArtifactRef)
      (task : TaskBundle), lifecycle.resolveReleased view ref = .ok task ∨
        resolver.resolveReleased view ref = .ok task → Released view ref task) ∧
    (∀ (view : View) (lifecycle : TaskLifecycle) (builtTask acceptedReport ref : ArtifactRef),
      ref ∈ (lifecycle.qualify view builtTask acceptedReport).2.artifacts →
        Advanced view.store (lifecycle.qualify view builtTask acceptedReport).1 .qualified builtTask ref) ∧
    (∀ (view : View) (lifecycle : TaskLifecycle) (qualifiedTask ref : ArtifactRef),
      ref ∈ (lifecycle.release view qualifiedTask).2.artifacts →
        Advanced view.store (lifecycle.release view qualifiedTask).1 .released qualifiedTask ref) ∧
    (∀ (addressing : Addressing) (store : Store), Reached addressing store → ∀ (ref : ArtifactRef)
      (task : TaskBundle), store.get? ref = some (.task task) → Lineage store task) := by
  refine ⟨fun view lifecycle resolver ref task resolved => ?_, fun _ _ _ _ _ reported =>
    operate_advances reported, fun _ _ _ _ reported => operate_advances reported,
    fun _ _ reached => reached.recorded⟩
  rcases resolved with resolved | resolved
  · exact lifecycle_resolves resolved
  · exact resolver_resolves resolved

/-! ### A task from its build to its release -/

namespace Sample

def ref (digit : Char) (kind : Identifier) (visibility : Visibility) (hex : isLowerHex digit = true) :
    ArtifactRef :=
  ⟨⟨String.ofList (List.replicate 64 digit), isDigest_replicate hex⟩, kind, 1, visibility, .json, firstSchema⟩

def verifierRef : ArtifactRef := ref '0' ⟨"VerifierBundle", rfl⟩ .private rfl
def policyRef : ArtifactRef := ref '1' ⟨"m5-qualification-policy", rfl⟩ .private rfl
def builtRef : ArtifactRef := ref '2' ⟨"TaskBundle", isIdentifier_taskBundle⟩ .private rfl
def reportRef : ArtifactRef := ref '3' ⟨"QualificationReport", rfl⟩ .private rfl
def qualifiedRef : ArtifactRef := ref '4' ⟨"TaskBundle", isIdentifier_taskBundle⟩ .private rfl
def releasedRef : ArtifactRef := ref '5' ⟨"TaskBundle", isIdentifier_taskBundle⟩ .private rfl
def validationRef : ArtifactRef := ref '6' ⟨"reference-validation", rfl⟩ .private rfl
def publicRef : ArtifactRef := ref '7' ⟨"bytes", rfl⟩ .public rfl

def evidence : EvidenceRecord where
  producer := ⟨"builder", by decide⟩
  command := [⟨"build", by decide⟩]
  recordedAt := ⟨2026, 1, 1, 0, 0, 0, 0, newYear.valid⟩
  exitStatus := 0
  artifacts := [verifierRef]
  revision := ⟨String.ofList (List.replicate 40 'a'), isRevision_replicate⟩
  scope := .unitDiagnostic
  nonempty := by simp

def cost : CostRecord where
  category := .storage
  wallSeconds := none
  cpuSeconds := none
  gpuSeconds := none
  inputTokens := none
  outputTokens := none
  humanMinutes := none
  usd := none
  measurement := .unknown
  note := ⟨"unmeasured", by decide⟩
  consistent := rfl

def provenance (producer : Text) (inputs : List ArtifactRef) : Provenance where
  producer := producer
  producerVersion := ⟨"1", by decide⟩
  createdAt := ⟨2026, 1, 1, 0, 0, 0, 0, newYear.valid⟩
  inputs := inputs
  evidence := [evidence]
  nonempty := by simp

def subject : TaskSubject where
  visibility := .private
  provenance := provenance ⟨"builder", by decide⟩ []
  costs := [cost]
  partition := .train
  repositoryFamily := ⟨"click", rfl⟩
  requestLineage := [⟨"request", rfl⟩]
  sourcePair := ref '8' ⟨"SourcePair", rfl⟩ .private rfl
  baseline := ref '8' ⟨"source-archive", isIdentifier_sourceArchive⟩ .private rfl
  solverView := ⟨publicRef, publicRef, [], publicRef, publicRef, by simp [publicRef, ref]⟩
  contract := ref '8' ⟨"RequirementContract", rfl⟩ .private rfl
  environment := ref '8' ⟨"EnvironmentRecipe", rfl⟩ .private rfl
  adapterVersion := ⟨"1", by decide⟩
  privateOracle := verifierRef
  referenceSolution := ref '8' ⟨"source-archive", isIdentifier_sourceArchive⟩ .private rfl

def built : TaskBundle := ⟨subject, .built, none, by decide, by simp, by simp [TaskState.isAdmitted]⟩

def report : QualificationReport where
  visibility := .private
  provenance := provenance ⟨"feature_rl.qualification", by decide⟩ [builtRef, policyRef, validationRef]
  task := builtRef
  disposition := .success
  policyVersion := ⟨"policy", by decide⟩
  bundle := rfl

def addressing : Addressing where
  refOf
    | .verifier _ => verifierRef
    | .policy _ => policyRef
    | .report _ => reportRef
    | .task task => match task.state with
        | .qualified => qualifiedRef
        | .released => releasedRef
        | _ => builtRef
  size _ := 1

def policy : QualificationPolicy := ⟨⟨"policy", by decide⟩⟩

def service : QualificationService := ⟨⟨"1", by decide⟩, policy, policyRef⟩

def lifecycle : TaskLifecycle := ⟨service, policyRef⟩

def qualified : TaskBundle :=
  ⟨subject, .qualified, some reportRef, by decide, by simp [reportRef, ref], by simp⟩

def released : TaskBundle :=
  ⟨subject, .released, some reportRef, by decide, by simp [reportRef, ref], by simp⟩

def governed : Store := (Dict.empty.set verifierRef (.verifier validationRef)).set policyRef (.policy policy)

def constructed : Store := (governed.set builtRef (.task built)).set reportRef (.report report)

def finished : Store := (constructed.set qualifiedRef (.task qualified)).set releasedRef (.task released)

def view (store : Store) : View := ⟨addressing, store, fun _ => true, fun _ => true⟩

theorem reached : Reached addressing constructed := by
  have verifier : Step addressing .empty (Dict.empty.set verifierRef (.verifier validationRef)) :=
    @Step.publish _ _ _ verifierRef (.verifier validationRef) (fun _ same => by cases same) rfl
  have policy : Step addressing (Dict.empty.set verifierRef (.verifier validationRef)) governed :=
    @Step.publish _ _ _ policyRef (.policy policy) (fun _ same => by cases same) rfl
  have build : Step addressing governed (governed.set builtRef (.task built)) :=
    @Step.build _ _ _ builtRef built rfl rfl rfl
  have accepted : Step addressing (governed.set builtRef (.task built)) constructed :=
    @Step.publish _ _ _ reportRef (.report report) (fun _ same => by cases same) rfl
  exact .step (.step (.step (.step .empty verifier) policy) build) accepted

theorem verified : service.verifyAccepted (view finished) releasedRef reportRef = .ok report := by
  simp only [QualificationService.verifyAccepted, bind_eq_ok, refuse_eq_ok]
  refine ⟨(), by decide, .report report, rfl, report, rfl, (), by decide, (), by decide, (), by decide,
    .task built, rfl, built, rfl, (), by decide, .verifier validationRef, rfl, validationRef, rfl, (),
    by decide, released, rfl, (), ?_, (), by decide, rfl⟩
  rw [Bool.not_eq_false, unchanged_iff]
  rfl

theorem resolved : lifecycle.resolveReleased (view finished) releasedRef = .ok released := by
  simp only [TaskLifecycle.resolveReleased, TaskLifecycle.accepted, bind_eq_ok, refuse_eq_ok, require_eq_ok]
  refine ⟨released, rfl, (), by decide, reportRef, rfl, report, ⟨(), rfl, report, verified, built, rfl, (),
    by decide, (), ?_, rfl⟩, rfl⟩
  rw [Bool.not_eq_false, unchanged_iff]
  rfl

end Sample

/-- A task that was built, qualified and released is resolved. -/
theorem lifecycle_sound_sample :
    Released (Sample.view Sample.finished) Sample.releasedRef Sample.released ∧
      Lineage Sample.constructed Sample.built :=
  ⟨lifecycle_sound.1 _ Sample.lifecycle ⟨[], Sample.policyRef⟩ _ _ (.inl Sample.resolved),
    lifecycle_sound.2.2.2 _ _ Sample.reached Sample.builtRef _ rfl⟩

end Pipeline

end FeatureRl
