import FeatureRl.Pipeline.Tasks

/-!
The lifecycle of a task: a built manifest is qualified by an accepted report and then
released, each time as a new artifact. What the registry allows is left open.
-/

namespace FeatureRl

open Checked

namespace Pipeline

/-! ### Artifacts -/

structure QualificationReport where
  visibility : Visibility
  provenance : Provenance
  task : ArtifactRef
  disposition : Disposition
  policyVersion : Text
  bundle : task.kind.val = "TaskBundle"
deriving DecidableEq

structure QualificationPolicy where
  policyId : Text
deriving DecidableEq

/-- The artifacts that a lifecycle reads; of a verifier only what it validated. -/
inductive Artifact where
  | task (task : TaskBundle)
  | report (report : QualificationReport)
  | verifier (validation : ArtifactRef)
  | policy (policy : QualificationPolicy)
deriving DecidableEq

inductive Failure where
  | admission (message : String)
  | qualification (code message : String)
  | artifact (message : String)
  | registry (message : String)
  | storage (message : String)

/-- The reference of an artifact, by the digest of its envelope, and the size of that envelope. -/
structure Addressing where
  refOf : Artifact → ArtifactRef
  size : Artifact → Nat

abbrev Store := Dict ArtifactRef Artifact

/-- Store an artifact under its reference. Another artifact there is a corruption. -/
def Store.put (addressing : Addressing) (store : Store) (artifact : Artifact) :
    Except Failure (Store × ArtifactRef) :=
  match store.get? (addressing.refOf artifact) with
  | none => .ok (store.set (addressing.refOf artifact) artifact, addressing.refOf artifact)
  | some existing =>
      if existing = artifact then .ok (store, addressing.refOf artifact)
      else .error (.artifact "existing object differs: corruption or collision")

def Store.get (addressing : Addressing) (store : Store) (cap : Nat) (ref : ArtifactRef) :
    Except Failure Artifact :=
  match store.get? ref with
  | none => .error (.artifact "artifact not found")
  | some artifact => if cap < addressing.size artifact then .error (.artifact "artifact size limit") else .ok artifact

def asTask : Artifact → Except Failure TaskBundle
  | .task task => .ok task
  | _ => .error (.admission "expected exact TaskBundle reference")

def asReport : Artifact → Except Failure QualificationReport
  | .report report => .ok report
  | _ => .error (.qualification "invalid_evidence" "wrong qualification artifact type")

def asValidation : Artifact → Except Failure ArtifactRef
  | .verifier validation => .ok validation
  | _ => .error (.qualification "invalid_evidence" "wrong qualification artifact type")

def asPolicy : Artifact → Except Failure QualificationPolicy
  | .policy policy => .ok policy
  | _ => .error (.admission "noncanonical or duplicate-key record")

/-! ### Acceptance -/

structure QualificationService where
  revision : Text
  policy : QualificationPolicy
  policyRef : ArtifactRef

def maxDocument : Nat := 1024 * 1024

/-- What a step reads: the store, the references that the registry does not quarantine and those that
it can register. -/
structure View where
  addressing : Addressing
  store : Store
  usable : ArtifactRef → Bool
  registers : ArtifactRef → Bool

def View.assertUsable (view : View) (ref : ArtifactRef) : Except Failure Unit :=
  refuse (view.usable ref = false) (.registry "artifact is not usable")

def View.read (view : View) (cap : Nat) (ref : ArtifactRef) : Except Failure Artifact := do
  view.assertUsable ref
  view.store.get view.addressing cap ref

def invalidEvidence (message : String) : Failure := .qualification "invalid_evidence" message

def subjectProducer : String := "feature_rl.qualification"

/-- The manifest in question, which may be the built one itself. -/
def laterManifest (view : View) (taskRef : ArtifactRef) (report : QualificationReport) (built : TaskBundle) :
    Except Failure TaskBundle :=
  if taskRef = report.task then .ok built else view.read (4 * 1024 * 1024) taskRef >>= asTask

def QualificationService.verifyAccepted (service : QualificationService) (view : View)
    (taskRef reportRef : ArtifactRef) : Except Failure QualificationReport := do
  refuse (reportRef.visibility ≠ .private)
    (invalidEvidence "qualification report must remain controller-private")
  let artifact ← view.read (4 * 1024 * 1024) reportRef
  let report ← asReport artifact
  refuse (report.provenance.producer.val ≠ subjectProducer ∨
      report.provenance.producerVersion ≠ service.revision)
    (invalidEvidence "qualification origin/revision mismatch")
  refuse (report.disposition ≠ .success) (.qualification "provisional" "qualification did not pass")
  refuse (report.policyVersion ≠ service.policy.policyId ∨ report.provenance.inputs.length ≠ 3 ∨
      report.provenance.inputs.take 2 ≠ [report.task, service.policyRef] ∨
      (report.provenance.inputs.drop 2).any (fun ref => ref.kind.val ≠ "reference-validation") = true)
    (invalidEvidence "qualification task/policy/reference mismatch")
  let artifact ← view.read (4 * 1024 * 1024) report.task
  let built ← asTask artifact
  refuse (built.state ≠ .built ∨ built.qualification ≠ none)
    (invalidEvidence "qualification requires its original BUILT task")
  let artifact ← view.read (4 * 1024 * 1024) built.subject.privateOracle
  let validation ← asValidation artifact
  refuse (report.provenance.inputs.drop 2 ≠ [validation]) (invalidEvidence "report changed frozen B/H evidence")
  let later ← laterManifest view taskRef report built
  refuse (unchanged built later = false)
    (invalidEvidence "later manifest changed the exact BUILT subject payload")
  refuse (taskRef ≠ report.task ∧ (later.state.isAdmitted = false ∨ later.qualification ≠ some reportRef))
    (invalidEvidence "task does not reference this qualification")
  .ok report

/-! ### Resolution -/

structure TaskLifecycle where
  qualification : QualificationService
  configuration : ArtifactRef

namespace TaskLifecycle

def task (view : View) (ref : ArtifactRef) : Except Failure TaskBundle := do
  let artifact ← view.read maxDocument ref
  asTask artifact

def accepted (lifecycle : TaskLifecycle) (view : View) (taskRef : ArtifactRef) (later : TaskBundle)
    (reportRef : ArtifactRef) : Except Failure QualificationReport := do
  view.assertUsable lifecycle.configuration
  let report ← lifecycle.qualification.verifyAccepted view taskRef reportRef
  let built ← task view report.task
  refuse (built.state ≠ .built ∨ built.qualification ≠ none)
    (.admission "accepted report must bind an unqualified BUILT task")
  refuse (unchanged built later = false)
    (.admission "later manifest changed the complete frozen BUILT payload")
  .ok report

def resolveReleased (lifecycle : TaskLifecycle) (view : View) (taskRef : ArtifactRef) :
    Except Failure TaskBundle := do
  let released ← task view taskRef
  refuse (released.state ≠ .released) (.admission "released manifest with accepted qualification is required")
  let reportRef ← require released.qualification
    (.admission "released manifest with accepted qualification is required")
  let _ ← lifecycle.accepted view taskRef released reportRef
  .ok released

end TaskLifecycle

/-- Frozen reports are read through the profile of the revision that made them. -/
structure ReleasedTaskResolver where
  profiles : List TaskLifecycle
  configuration : ArtifactRef

def ReleasedTaskResolver.resolveReleased (resolver : ReleasedTaskResolver) (view : View)
    (taskRef : ArtifactRef) : Except Failure TaskBundle := do
  view.assertUsable resolver.configuration
  let released ← TaskLifecycle.task view taskRef
  refuse (released.state ≠ .released) (.admission "released manifest and accepted qualification required")
  let reportRef ← require released.qualification
    (.admission "released manifest and accepted qualification required")
  refuse (reportRef.visibility ≠ .private)
    (.admission "qualification report must retain private visibility")
  let artifact ← view.read maxDocument reportRef
  let report ← asReport artifact
  let profile ← require (resolver.profiles.find? fun profile =>
      profile.qualification.revision = report.provenance.producerVersion)
    (.admission "unsupported qualification implementation revision")
  refuse (report.provenance.producer.val ≠ subjectProducer ∨
      report.provenance.inputs.length ∉ [2, 3])
    (.admission "qualification report lacks controller origin and policy")
  let policyRef ← require report.provenance.inputs[1]?
    (.admission "qualification report lacks controller origin and policy")
  refuse (policyRef.visibility ≠ .private) (.admission "qualification policy must retain private visibility")
  let artifact ← view.read maxDocument policyRef
  let policy ← asPolicy artifact
  let service : QualificationService :=
    ⟨profile.qualification.revision, policy, view.addressing.refOf (.policy policy)⟩
  let accepted ← service.verifyAccepted view taskRef reportRef
  let artifact ← view.store.get view.addressing maxDocument accepted.task
  let built ← asTask artifact
  refuse (built.state ≠ .built ∨ built.qualification ≠ none)
    (.admission "accepted report must bind an unqualified BUILT task")
  refuse (unchanged built released = false)
    (.admission "later manifest changed the complete frozen BUILT payload")
  .ok released

/-! ### Transitions -/

inductive Destination where
  | qualified | released

def Destination.state : Destination → TaskState
  | qualified => .qualified
  | released => .released

/-- The report that a predecessor is moved by. -/
def citation (destination : Destination) (prior : TaskBundle) (reportRef : ArtifactRef) :
    Except Failure ArtifactRef :=
  match destination with
  | .qualified =>
      if prior.state ≠ .built ∨ prior.qualification ≠ none then
        .error (.admission "qualification transition requires original BUILT task")
      else .ok reportRef
  | .released =>
      if prior.state ≠ .qualified then .error (.admission "release requires a QUALIFIED predecessor")
      else require prior.qualification (.admission "release requires a QUALIFIED predecessor")

def isFirst : Destination → Bool
  | .qualified => true
  | .released => false

def TaskLifecycle.transition (lifecycle : TaskLifecycle) (view : View) (predecessor reportRef : ArtifactRef)
    (destination : Destination) : Except Failure (Store × ArtifactRef) := do
  let prior ← task view predecessor
  let cited ← citation destination prior reportRef
  let report ← lifecycle.accepted view predecessor prior cited
  refuse (isFirst destination = true ∧ report.task ≠ predecessor)
    (.admission "accepted report task differs from BUILT predecessor")
  let target ← require (prior.moved destination.state cited) (.admission "validation error")
  refuse (maxDocument < view.addressing.size (.task target))
    (.admission "transition target exceeds its reader byte limit")
  view.store.put view.addressing (.task target)

def Failure.disposition : Failure → Disposition
  | .qualification code _ => if code = "provisional" then .provisional else .invalid
  | .registry _ => .blocked
  | .storage _ => .infrastructure
  | _ => .invalid

structure Reported where
  disposition : Disposition
  artifacts : List ArtifactRef

def TaskLifecycle.operate (lifecycle : TaskLifecycle) (view : View) (predecessor reportRef : ArtifactRef)
    (destination : Destination) : Store × Reported :=
  match lifecycle.transition view predecessor reportRef destination with
  -- The target stays in the store when the registry refuses it.
  | .ok (store, ref) => (store, if view.registers ref then ⟨.success, [ref]⟩ else ⟨.blocked, []⟩)
  | .error failure => (view.store, ⟨failure.disposition, []⟩)

def TaskLifecycle.qualify (lifecycle : TaskLifecycle) (view : View) (builtTask acceptedReport : ArtifactRef) :
    Store × Reported := lifecycle.operate view builtTask acceptedReport .qualified

/-- The report of a release is the one that its predecessor cites. -/
def TaskLifecycle.release (lifecycle : TaskLifecycle) (view : View) (qualifiedTask : ArtifactRef) :
    Store × Reported := lifecycle.operate view qualifiedTask qualifiedTask .released

/-! ### Runs -/

/-- One operation on the store, by any lifecycle and under any registry. -/
inductive Step (addressing : Addressing) : Store → Store → Prop
  | build {store next : Store} {ref : ArtifactRef} {built : TaskBundle} (state : built.state = .built)
      (unqualified : built.qualification = none)
      (stored : store.put addressing (.task built) = .ok (next, ref)) : Step addressing store next
  | publish {store next : Store} {ref : ArtifactRef} {artifact : Artifact}
      (other : ∀ task, artifact ≠ .task task)
      (stored : store.put addressing artifact = .ok (next, ref)) : Step addressing store next
  | qualify {store : Store} (lifecycle : TaskLifecycle) (usable registers : ArtifactRef → Bool)
      (builtTask acceptedReport : ArtifactRef) :
      Step addressing store (lifecycle.qualify ⟨addressing, store, usable, registers⟩ builtTask acceptedReport).1
  | release {store : Store} (lifecycle : TaskLifecycle) (usable registers : ArtifactRef → Bool)
      (qualifiedTask : ArtifactRef) :
      Step addressing store (lifecycle.release ⟨addressing, store, usable, registers⟩ qualifiedTask).1

inductive Reached (addressing : Addressing) : Store → Prop
  | empty : Reached addressing .empty
  | step {store next : Store} (reached : Reached addressing store) (step : Step addressing store next) :
      Reached addressing next

end Pipeline

end FeatureRl
