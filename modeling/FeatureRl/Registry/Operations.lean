import FeatureRl.Lib.Gather
import FeatureRl.Registry.Quarantine
import FeatureRl.Registry.SemanticKeys
import FeatureRl.Registry.Verify

/-!
The operations of a registry. Each asks the storage for one event, under a key of its own and with the records of a
verified closure. Asked again it verifies the closure again, finds the same records and repeats its event.
-/

namespace FeatureRl

open Artifacts Budgeted Checked Effects Sorting Verify

namespace Verify.Context

variable {context later : Context}

/-! ### Verification in a later state -/

/-- The same store or a larger one, and limits that are no smaller. -/
structure Extends (context later : Context) : Prop where
  hashing : later.hashing = context.hashing
  store : context.store.Extends later.store
  limits : context.limits.Le later.limits
  explicit : later.explicit = context.explicit
  validate : later.validate = context.validate
  intrinsic : later.intrinsic = context.intrinsic

theorem capacities_le {limits larger : RegistryLimits} (below : limits.Le larger) :
    limits.maxClosureArtifacts.val ≤ larger.maxClosureArtifacts.val ∧
      limits.maxClosureBytes.val ≤ larger.maxClosureBytes.val ∧
      limits.maxArtifactEnvelopeBytes.val ≤ larger.maxArtifactEnvelopeBytes.val ∧
      limits.maxArtifactPayloadBytes.val ≤ larger.maxArtifactPayloadBytes.val := by
  have each := below.capacities
  simp only [RegistryLimits.capacities, List.forall₂_cons, List.Forall₂.nil, and_true] at each
  omega

theorem read_extends (extended : context.Extends later) {ref : ArtifactRef} {cap : Nat}
    {result : Nat × List ArtifactRef} (done : context.read ref cap = .ok result) :
    later.read ref cap = .ok result := by
  have small := (capacities_le extended.limits).2.2.2
  rw [read] at done ⊢
  rw [extended.hashing, extended.validate, extended.intrinsic]
  split at done
  next opaque' =>
    simp only [opaque', ↓reduceIte, bind_eq_ok, fromStore_eq_ok, ArtifactStore.decodeBytes, refuse_eq_ok] at done ⊢
    obtain ⟨allowed, object, envelope, got, payload, ⟨again, fits, rest⟩, found⟩ := done
    exact ⟨allowed, object, envelope, extended.store.get got, payload, ⟨again, by omega, rest⟩, found⟩
  next typed =>
    simp only [typed, ↓reduceIte, bind_eq_ok, fromStore_eq_ok] at done ⊢
    obtain ⟨allowed, known, version, supported, envelope, got, found⟩ := done
    exact ⟨allowed, known, version, supported, envelope, extended.store.get got, found⟩

/-- The records of a closure are registered as they are. -/
def Registers (artifacts : Dict Digest ArtifactRecord) (records : List Record) : Prop :=
  ∀ record ∈ records, ∃ kept, artifacts.get? record.ref.sha256 = some kept ∧
    kept.dependencies.val = record.dependencies

theorem order_injective {visits : List (Visit ArtifactRef)} {roots : List ArtifactRef}
    (accepted : context.rules.Accepted roots visits) {visit : Visit ArtifactRef} (inside : visit ∈ visits) :
    ∀ one ∈ visit.next, ∀ two ∈ visit.next, order one = order two → one = two := by
  intro one first two second same
  obtain ⟨left, leftIn, rfl⟩ := accepted.closed visit inside one first
  obtain ⟨right, rightIn, rfl⟩ := accepted.closed visit inside two second
  have digest : left.item.sha256 = right.item.sha256 := Subtype.ext (Prod.mk.inj (toLex.injective same)).1
  rw [List.inj_on_of_nodup_map accepted.distinct leftIn rightIn digest]

/-- What followed an item in the earlier state follows it in a state that registers it. -/
theorem follow_extends (extended : context.Extends later) {ref : ArtifactRef} {intrinsic next : List ArtifactRef}
    (registered : ∃ kept, later.artifacts.get? ref.sha256 = some kept ∧ kept.dependencies.val = next)
    (injective : ∀ one ∈ next, ∀ two ∈ next, order one = order two → one = two)
    (done : context.follow ref intrinsic = .ok next) : later.follow ref intrinsic = .ok next := by
  have most := (capacities_le extended.limits).1
  simp only [follow, bind_eq_ok, refuse_eq_ok, Except.ok.injEq] at done ⊢
  obtain ⟨_, scope, _, few, made⟩ := done
  cases given : context.explicit.get? ref.sha256 with
  | some refs =>
      have same : later.declared ref = context.declared ref := by simp only [declared, extended.explicit, given]
      exact ⟨(), same ▸ scope, (), by rw [same]; omega, same ▸ made⟩
  | none =>
      obtain ⟨kept, found, rfl⟩ := registered
      have listed : later.declared ref = kept.dependencies.val := by
        simp only [declared, extended.explicit, given, found, Option.map_some, Option.getD_some]
      have members : ∀ other, other ∈ kept.dependencies.val ↔ other ∈ intrinsic ∨ other ∈ context.declared ref := by
        intro other
        rw [← made, mem_sortBy, List.mem_dedup, List.mem_append]
      have perm : (intrinsic ++ kept.dependencies.val).dedup.Perm (intrinsic ++ context.declared ref).dedup := by
        rw [List.perm_ext_iff_of_nodup (List.nodup_dedup _) (List.nodup_dedup _)]
        intro other
        simp only [List.mem_dedup, List.mem_append, members]
        tauto
      have shape : sortBy order (intrinsic ++ kept.dependencies.val).dedup = kept.dependencies.val := by
        rw [← made]
        refine sortBy_eq_of_perm (fun one first two second same => ?_) (made ▸ perm)
        refine injective one ((members one).mpr ?_) two ((members two).mpr ?_) same
        · have listed := (made ▸ perm).mem_iff.mp first
          rwa [List.mem_dedup, List.mem_append] at listed
        · have listed := (made ▸ perm).mem_iff.mp second
          rwa [List.mem_dedup, List.mem_append] at listed
      rw [listed, shape]
      refine ⟨(), ?_, (), ?_, rfl⟩
      · rintro ⟨reserved', outside⟩
        refine scope ⟨reserved', fun inside => outside fun other member => ?_⟩
        rcases (members other).mp member with here | there
        · exact here
        · exact inside there
      · rw [made] at few
        omega

/-- A verification that succeeded finds the same records in every later state that registers them. -/
theorem verify_extends (extended : context.Extends later) {roots : List ArtifactRef} {steps more : Nat}
    {found : List Record} (verified : context.verify steps roots = some (.ok found))
    (registered : Registers later.artifacts found) {outcome : Except Stop (List Record)}
    (ran : later.verify more roots = some outcome) : outcome = .ok found := by
  obtain ⟨checked, progress, finished, rfl⟩ := context.verifyIn_eq_ok.mp verified
  have reorders : Rules.Reorders (id : List ArtifactRef → List ArtifactRef) := fun _ => .refl _
  have accepted := Rules.accepted_of_run context.lawful reorders finished
  have bounds := capacities_le extended.limits
  have transferred : later.rules.Accepted roots progress.visited := by
    refine accepted.transfer rfl (fun visit inside => ?_) bounds.1 bounds.2.1
    obtain ⟨admitted, content, read, follow⟩ := accepted.reads visit inside
    refine ⟨admitted, content, ?_, ?_⟩
    · exact ((later.read_capped bounds.2.2.1).mp (read_extends extended read)).1
    · exact follow_extends extended (registered _ (mem_records.mpr ⟨visit, inside, rfl⟩))
        (order_injective accepted inside) follow
  rw [verify, verifyIn, checked] at ran
  simp only [Option.map_eq_some_iff] at ran
  obtain ⟨inner, rest, rfl⟩ := ran
  obtain ⟨result, rfl, visits⟩ := Rules.run_of_accepted later.lawful reorders (fun _ => Iff.rfl) transferred rest
  rw [Except.map, records_eq (accepted.distinct.perm (visits.symm.map _)) visits]

end Verify.Context

/-! ### Operations -/

/-- What an operation puts in its event, besides the records of a closure. -/
inductive Contents where
  | register
  | enqueue (spec : JobSpec)
  | claim (claim : Claim)
  | abandon (claim : Claim) (reason : String) (evidence : List ArtifactRef)
  | retry (jobId : Digest) (reason : String) (evidence : List ArtifactRef)
  | reconcile (claim : Claim) (observation : CostObservation)
  | complete (claim : Claim) (result : OperationResult) (observations : List String)
  | quarantine (notice : QuarantineNotice)
  | lift (noticeId reason : String) (evidence : List ArtifactRef)

namespace Contents

def action : Contents → Action
  | register => .register
  | enqueue _ => .enqueue
  | claim _ => .claim
  | abandon .. => .abandon
  | retry .. => .retry
  | reconcile .. => .reconcile
  | complete .. => .complete
  | quarantine _ => .quarantine
  | lift .. => .lift

def evidenceDocument (evidence : List ArtifactRef) : Json := (Codec.tuple ArtifactRef.codec).document evidence

def members : Contents → Json.Members
  | register => []
  | enqueue spec => [("spec", JobSpec.codec.document spec)]
  | claim capability => [("claim", Claim.codec.document capability)]
  | abandon capability reason evidence =>
      [("claim", Claim.codec.document capability), ("reason", .str reason), ("evidence", evidenceDocument evidence)]
  | retry jobId reason evidence =>
      [("job_id", .str jobId.val), ("reason", .str reason), ("evidence", evidenceDocument evidence)]
  | reconcile capability observation =>
      [("claim", Claim.codec.document capability), ("observation", CostObservation.codec.document observation)]
  | complete capability result observations =>
      [("claim", Claim.codec.document capability), ("result", OperationResult.codec.document result),
        ("observations", (Codec.tuple Codec.string).document observations)]
  | quarantine notice => [("notice", QuarantineNotice.codec.document notice)]
  | lift noticeId reason evidence =>
      [("notice_id", .str noticeId), ("reason", .str reason), ("evidence", evidenceDocument evidence)]

/-- The payload of an event with these contents and these records. -/
def payloadMembers (contents : Contents) (records : List ArtifactRecord) : Json.Members :=
  ("artifacts", (Codec.tuple ArtifactRecord.codec).document records) :: contents.members

theorem payloadMembers_keys (contents : Contents) (records : List ArtifactRecord) :
    (contents.payloadMembers records).map Prod.fst = State.shape contents.action := by
  cases contents <;> rfl

theorem shape_nodup (action : Action) : (State.shape action).Nodup := by
  cases action <;> decide

theorem payloadMembers_nodup (contents : Contents) (records : List ArtifactRecord) :
    ((contents.payloadMembers records).map Prod.fst).Nodup := by
  rw [payloadMembers_keys]
  exact shape_nodup _

theorem payloadMembers_normal (contents : Contents) (records : List ArtifactRecord) :
    ∀ member ∈ contents.payloadMembers records, member.2.normal = true := by
  cases contents <;> simp [payloadMembers, members, evidenceDocument, Codec.normal, Json.normal]

def payload (contents : Contents) (records : List ArtifactRecord) : EventData :=
  EventData.ofMembers (contents.payloadMembers records) (contents.payloadMembers_nodup records)
    (contents.payloadMembers_normal records)

/-- The records of a payload are the ones it was made of. -/
theorem payloadRecords_payload (contents : Contents) (records : List ArtifactRecord) :
    Storage.payloadRecords (contents.payload records) = .ok records := by
  have listed : (contents.payload records).val.lookup "artifacts" =
      some ((Codec.tuple ArtifactRecord.codec).document records) :=
    Json.lookup_sortMembers (contents.payloadMembers_nodup records) List.mem_cons_self
  simp only [Storage.payloadRecords, bind_eq_ok, require_eq_ok]
  exact ⟨_, listed, _, rfl, Codec.validateAll_map _ records⟩

end Contents

/-- What an operation asks for in a state: contents under a key, with the records of the closure of its roots. -/
structure Plan where
  contents : Contents
  key : String
  roots : List ArtifactRef
  explicit : Dict Digest (List ArtifactRef)

/-- An operation in the state that it finds. -/
abbrev Planner := State → Outcome Plan

def Plan.request (plan : Plan) (records : List ArtifactRecord) : Storage.Request :=
  ⟨plan.contents.action, plan.key, plan.contents.payload records⟩

/-- The store that a registry reads, and the checks of typed documents and of reserved byte records. -/
structure Registry where
  hashing : Hashing
  store : ArtifactStore
  validate : Envelope → Except Artifacts.Failure Unit
  intrinsic : ArtifactRef → Bytes → Except Stop (List ArtifactRef)

namespace Registry

variable (registry : Registry)

/-! ### Arguments -/

/-- How a stop of the verification ends an operation; failures of the store are not told apart. -/
def stopFailure : Stop → Failure
  | .store _ => ⟨.io, "artifact store"⟩
  | .conflict message => ⟨.conflict, message⟩
  | .limit message => ⟨.limit, message⟩

def fromStop {α : Type} : Except Stop α → Outcome α
  | .ok value => .ok value
  | .error stop => .error (stopFailure stop)

def checkRef (ref : ArtifactRef) : Outcome Unit := fromStop (Context.checkRef ref)

def checkRefs (refs : List ArtifactRef) : Outcome Unit := fromStop (Context.checkRefs refs)

/-! ### Verification -/

def context (state : State) (explicit : Dict Digest (List ArtifactRef)) : Context :=
  ⟨registry.hashing, registry.store, state.limits, state.artifacts, explicit, registry.validate, registry.intrinsic⟩

/-- The steps after which no artifact is pending. -/
def verifySteps (context : Context) (roots : List ArtifactRef) : Nat :=
  Rules.work context.rules context.limits.maxClosureArtifacts.val (Rules.start roots) + 1

def checkedRefs (refs : List ArtifactRef) : Option Refs := Codec.check (fun refs => decide (refs.length ≤ 10000)) refs

def recordOf (found : Context.Record) : Outcome ArtifactRecord := do
  let dependencies ← require (checkedRefs found.dependencies) invalid
  .ok ⟨found.ref, dependencies⟩

def verify (state : State) (roots : List ArtifactRef) (explicit : Dict Digest (List ArtifactRef)) :
    Outcome (List ArtifactRecord) := do
  let context := registry.context state explicit
  let found ← require (context.verify (verifySteps context roots) roots) ⟨.unfinished, "artifact closure"⟩
  let records ← fromStop found
  mapAll recordOf records

/-- The builder of an operation: the records of its closure are verified in the state that the storage holds. -/
def build (planner : Planner) : Storage.Builder := fun state => do
  let plan ← planner state
  let records ← registry.verify state plan.roots plan.explicit
  .ok (some (plan.request records))

/-! ### The operations -/

def register (ref : ArtifactRef) (dependencies : List ArtifactRef) : Outcome Planner := do
  checkRef ref
  checkRefs dependencies
  refuse (¬ dependencies.Nodup) ⟨.conflict, "duplicate explicit dependency"⟩
  .ok fun _ => .ok ⟨.register, "register/" ++ ref.sha256.val, [ref], Dict.empty.set ref.sha256 dependencies⟩

def jobRoots (spec : JobSpec) : List ArtifactRef := spec.inputs.val ++ [spec.configuration]

def enqueue (sha256 : Bytes → Digest) (spec : JobSpec) : Planner := fun _ =>
  .ok ⟨.enqueue spec, "enqueue/" ++ (identity sha256 (JobSpec.codec.document spec)).val, jobRoots spec, Dict.empty⟩

def abandon (claim : Claim) (reason : String) (evidence : List ArtifactRef) : Outcome Planner := do
  checkRefs evidence
  .ok fun state => do
    let _ ← state.authenticate claim
    .ok ⟨.abandon claim reason evidence, "abandon/" ++ claim.attemptId.val, evidence, Dict.empty⟩

def retry (jobId : Digest) (reason : String) (evidence : List ArtifactRef) : Outcome Planner := do
  checkRefs evidence
  .ok fun state => do
    let job ← state.getJob jobId
    .ok ⟨.retry jobId reason evidence, "retry/" ++ jobId.val ++ "/" ++ toString job.attempts.length,
      evidence ++ jobRoots job.spec, Dict.empty⟩

def reconcile (claim : Claim) (observation : CostObservation) : Planner := fun state => do
  let _ ← state.authenticate claim
  .ok ⟨.reconcile claim observation, "reconcile/" ++ observation.source.val ++ "/" ++
      observation.upstreamAttemptId.val ++ "/" ++ toString observation.revision.val,
    observation.receipts.val, Dict.empty⟩

def unboundedSnapshots : Failure := ⟨.limit, "completion snapshot identities must be a bounded tuple"⟩

def complete (claim : Claim) (result : OperationResult) (observations : List String) : Outcome Planner := do
  refuse (100000 < observations.length) unboundedSnapshots
  refuse (¬ observations.Nodup) ⟨.conflict, "duplicate completion accounting snapshot"⟩
  .ok fun state => do
    refuse (state.limits.maxEvents.val < observations.length) unboundedSnapshots
    let (attempt, job) ← state.authenticate claim
    refuse (attempt.state = .abandoned)
      ⟨.staleClaim, "abandoned attempt cannot finalize a job; reconcile its receipts separately"⟩
    let held ← require (references (OperationResult.codec.document result)) invalid
    .ok ⟨.complete claim result (sortBy id observations), "complete/" ++ job.jobId.val, held ++ jobRoots job.spec,
      Dict.empty⟩

/-- An unresolved notice. -/
def newNotice (noticeId : String) (root : ArtifactRef) (reason : String) (evidence : List ArtifactRef) :
    Option QuarantineNotice := do
  let noticeId ← Codec.check isName noticeId
  let reason ← Codec.check isReason reason
  let evidence ← checkedRefs evidence
  if nonempty : evidence.val ≠ [] then some ⟨noticeId, root, reason, evidence, true, none, Refs.empty, nonempty⟩
  else none

def quarantine (ref : ArtifactRef) (noticeId reason : String) (evidence : List ArtifactRef) : Outcome Planner := do
  checkRef ref
  checkRefs evidence
  let notice ← require (newNotice noticeId ref reason evidence) invalid
  .ok fun state => do
    let _ ← state.affected ref
    .ok ⟨.quarantine notice, "quarantine/" ++ noticeId, evidence, Dict.empty⟩

def liftQuarantine (noticeId reason : String) (evidence : List ArtifactRef) : Outcome Planner := do
  checkRefs evidence
  .ok fun _ => .ok ⟨.lift noticeId reason evidence, "lift/" ++ noticeId, evidence, Dict.empty⟩

/-! ### Operations asked again -/

/-- The same registry over the same store or a larger one. -/
structure Extends (registry later : Registry) : Prop where
  hashing : later.hashing = registry.hashing
  store : registry.store.Extends later.store
  validate : later.validate = registry.validate
  intrinsic : later.intrinsic = registry.intrinsic

variable {registry}

theorem fromStop_eq_ok {α : Type} {outcome : Except Stop α} {value : α} :
    fromStop outcome = .ok value ↔ outcome = .ok value := by
  cases outcome <;> simp [fromStop]

theorem recordOf_eq_ok {found : Context.Record} {record : ArtifactRecord} (made : recordOf found = .ok record) :
    record.ref = found.ref ∧ record.dependencies.val = found.dependencies := by
  simp only [recordOf, bind_eq_ok, require_eq_ok, checkedRefs, Except.ok.injEq] at made
  obtain ⟨kept, few, rfl⟩ := made
  unfold Codec.check at few
  split at few
  next =>
    cases few
    exact ⟨rfl, rfl⟩
  next => cases few

theorem verify_eq_ok {state : State} {roots : List ArtifactRef} {explicit : Dict Digest (List ArtifactRef)}
    {records : List ArtifactRecord} : registry.verify state roots explicit = .ok records ↔
      ∃ found, (registry.context state explicit).verify (verifySteps (registry.context state explicit) roots) roots =
        some (.ok found) ∧ mapAll recordOf found = .ok records := by
  simp only [verify, bind_eq_ok, require_eq_ok, fromStop_eq_ok]
  constructor
  · rintro ⟨_, ran, found, rfl, made⟩
    exact ⟨found, ran, made⟩
  · rintro ⟨found, ran, made⟩
    exact ⟨_, ran, found, rfl, made⟩

/-- Every closure is verified, or refused, within the steps. -/
theorem verify_ends (context : Context) (roots : List ArtifactRef) :
    ∃ outcome, context.verify (verifySteps context roots) roots = some outcome := by
  rw [Context.verify, Context.verifyIn]
  cases Context.checkRefs roots with
  | error stop => exact ⟨_, rfl⟩
  | ok _ =>
      have reorders : Rules.Reorders (id : List ArtifactRef → List ArtifactRef) := fun _ => .refl _
      obtain ⟨outcome, ran⟩ := Rules.run_terminates context.lawful reorders
        (Nat.lt_succ_self (Rules.work context.rules context.limits.maxClosureArtifacts.val (Rules.start roots)))
      exact ⟨_, by rw [verifySteps, ran]; rfl⟩

/-- The records of a closure have distinct digests. -/
theorem verify_distinct {state : State} {roots : List ArtifactRef} {explicit : Dict Digest (List ArtifactRef)}
    {records : List ArtifactRecord} (verified : registry.verify state roots explicit = .ok records) :
    (records.map fun record => record.ref.sha256).Nodup := by
  obtain ⟨found, ran, made⟩ := verify_eq_ok.mp verified
  obtain ⟨_, progress, finished, rfl⟩ := Context.verifyIn_eq_ok _ |>.mp ran
  have closed := Context.closed_of_accepted _
    (Rules.accepted_of_run (Context.lawful _) (fun items => List.Perm.refl items) finished)
  rw [← map_eq_of_forall₂ (forall₂_of_mapAll made) fun item record same => by rw [(recordOf_eq_ok same).1]]
  exact closed.once

/-- A state that registers the records of a closure verifies it again, with the same records. -/
theorem verify_again {later : Registry} (extended : registry.Extends later) {state next : State}
    (grown : state.limits.Le next.limits) {roots : List ArtifactRef} {explicit : Dict Digest (List ArtifactRef)}
    {records : List ArtifactRecord} (verified : registry.verify state roots explicit = .ok records)
    (held : ∀ record ∈ records, Storage.Registers next record) : later.verify next roots explicit = .ok records := by
  obtain ⟨found, ran, made⟩ := verify_eq_ok.mp verified
  have contexts : (registry.context state explicit).Extends (later.context next explicit) :=
    ⟨extended.hashing, extended.store, grown, rfl, extended.validate, extended.intrinsic⟩
  have registered : Context.Registers next.artifacts found := by
    intro item inside
    obtain ⟨record, listed, same⟩ := forall_of_forall₂ (forall₂_of_mapAll made).flip item inside
    obtain ⟨ref, dependencies⟩ := recordOf_eq_ok same
    exact ⟨record, ref ▸ held record listed, dependencies⟩
  obtain ⟨outcome, again⟩ := verify_ends (later.context next explicit) roots
  obtain rfl := Context.verify_extends contexts ran registered again
  exact verify_eq_ok.mpr ⟨found, again, made⟩

theorem build_eq_some {planner : Planner} {state : State} {request : Storage.Request} :
    registry.build planner state = .ok (some request) ↔ ∃ plan records, planner state = .ok plan ∧
      registry.verify state plan.roots plan.explicit = .ok records ∧ plan.request records = request := by
  simp only [build, bind_eq_ok, Except.ok.injEq, Option.some.injEq]
  constructor
  · rintro ⟨plan, asked, records, verified, made⟩
    exact ⟨plan, records, asked, verified, made⟩
  · rintro ⟨plan, records, asked, verified, made⟩
    exact ⟨plan, asked, records, verified, made⟩

/-- A history that a request repeats registers the records of the request. -/
theorem registers_of_repeats {loaded : Loaded} {plan : Plan} {records : List ArtifactRecord}
    (distinct : (records.map fun record => record.ref.sha256).Nodup)
    (repeats : Storage.Repeats loaded (plan.request records)) :
    ∀ record ∈ records, Storage.Registers loaded.state record := by
  obtain ⟨event, _, again⟩ := repeats
  obtain ⟨_, _, submitted, _, read, _, held, _⟩ := Storage.checkReissue_eq_ok.mp again
  obtain rfl := Except.ok.inj ((plan.contents.payloadRecords_payload records).symm.trans read)
  intro record inside
  obtain ⟨other, found⟩ := Storage.recordsByDigest_isSome inside
  obtain ⟨listed, same⟩ := Storage.recordsByDigest_get? found
  rw [← List.inj_on_of_nodup_map distinct listed inside same]
  rw [← same] at found
  exact held (other.ref.sha256, other) (Dict.mem_entries.mpr found)

/-- The operations that ask for the same event in every later state. -/
inductive Standing (sha256 : Bytes → Digest) : Planner → Prop
  | register {ref : ArtifactRef} {dependencies : List ArtifactRef} {planner : Planner}
      (asked : register ref dependencies = .ok planner) : Standing sha256 planner
  | enqueue (spec : JobSpec) : Standing sha256 (enqueue sha256 spec)
  | quarantine {ref : ArtifactRef} {noticeId reason : String} {evidence : List ArtifactRef} {planner : Planner}
      (asked : quarantine ref noticeId reason evidence = .ok planner) : Standing sha256 planner
  | lift {noticeId reason : String} {evidence : List ArtifactRef} {planner : Planner}
      (asked : liftQuarantine noticeId reason evidence = .ok planner) : Standing sha256 planner

theorem Standing.applied {sha256 : Bytes → Digest} {planner : Planner} (standing : Standing sha256 planner)
    {state next : State} {action : Action} {data : Json.Members} {plan : Plan} (asked : planner state = .ok plan)
    (applied : state.apply sha256 action data = .ok next) : planner next = .ok plan := by
  cases standing with
  | enqueue spec => exact asked
  | register made =>
      simp only [Registry.register, bind_eq_ok, Except.ok.injEq] at made
      obtain ⟨_, _, _, _, _, _, rfl⟩ := made
      exact asked
  | lift made =>
      simp only [liftQuarantine, bind_eq_ok, Except.ok.injEq] at made
      obtain ⟨_, _, rfl⟩ := made
      exact asked
  | quarantine made =>
      simp only [Registry.quarantine, bind_eq_ok, Except.ok.injEq] at made
      obtain ⟨_, _, _, _, notice, _, rfl⟩ := made
      simp only [bind_eq_ok] at asked ⊢
      obtain ⟨affected, covered, same⟩ := asked
      have known := (State.affected_eq_ok.mp covered).1
      obtain ⟨later, covers, _⟩ := State.affected_isLeast ((State.apply_step applied).registered known)
      exact ⟨later, covers, same⟩

theorem Standing.grows {sha256 : Bytes → Digest} {planner : Planner} (standing : Standing sha256 planner)
    {first last : Loaded} {before after : List RegistryLimits} {plan : Plan} (asked : planner first.state = .ok plan)
    (grows : Storage.Grows sha256 first before last after) : planner last.state = .ok plan := by
  cases grows with
  | same => exact asked
  | event linked applied => exact standing.applied asked applied

end Registry

namespace System

open Storage Registry

variable {sha256 : Bytes → Digest}

/-- In every run, with interruptions anywhere: an operation whose event was committed finds the records of its closure
registered from then on as it verified them. Asked again by any client, over a store that may have grown, it verifies
the same closure and succeeds without another event, if it still asks for the same; a registration, an enqueued job, a
quarantine and its lifting always do. -/
theorem run_operations (sha256 : Bytes → Digest) (calls : List (Call × Option Nat)) :
    (∀ planner, Standing sha256 planner → ∀ (state next : State) action data plan, planner state = .ok plan →
      state.apply sha256 action data = .ok next → planner next = .ok plan) ∧
    ∀ (registry : Registry) planner index now remaining handle loaded plan,
      (run sha256 calls).handles[index]? = some handle →
      Loads sha256 (run sha256 calls).directory handle.requestedLimits loaded →
      planner loaded.state = .ok plan →
      eventCount (run sha256 (calls ++ [(.change index (registry.build planner) now, remaining)])).directory ≠
        eventCount (run sha256 calls).directory →
      ∃ records, registry.verify loaded.state plan.roots plan.explicit = .ok records ∧
        ∀ more, ∀ other ∈ (run sha256 (calls ++ (.change index (registry.build planner) now, remaining) :: more)).handles,
          ∃ next, Loads sha256 (run sha256 (calls ++ (.change index (registry.build planner) now, remaining) ::
              more)).directory other.requestedLimits next ∧
            (∀ record ∈ records, Registers next.state record) ∧
            (Standing sha256 planner → planner next.state = .ok plan) ∧
            ∀ later, registry.Extends later → ∀ again, again next.state = .ok plan → ∀ moment,
              (change sha256 (later.build again) moment).Ends
                ⟨(run sha256 (calls ++ (.change index (registry.build planner) now, remaining) :: more)).directory,
                  other, none⟩
                (fun state after => state = next.state ∧ Loads sha256 after.directory other.requestedLimits next)
                (fun _ _ => False) := by
  refine ⟨fun planner standing state next action data plan asked applied => standing.applied asked applied, ?_⟩
  intro registry planner index now remaining handle loaded plan acting loads asked counted
  rcases @run_keyed sha256 calls with unopened | ⟨root, database, history, capacities, journal, running, _⟩
  · rw [unopened.handles] at acting
    cases acting
  · obtain rfl := running.recorded.loads_unique loads
    rw [run_append, List.foldl_cons, List.foldl_nil] at counted
    obtain ⟨request, built, second, next, later, piece, after, grows, repeats⟩ := running.committed counted
    obtain ⟨same, records, planned, verified, rfl⟩ := build_eq_some.mp built
    obtain rfl := Except.ok.inj (asked.symm.trans planned)
    refine ⟨records, verified, fun more other found => ?_⟩
    let holds (reached : Loaded) : Prop := Repeats reached (plan.request records) ∧
      loaded.state.limits.Le reached.state.limits ∧ (Standing sha256 planner → planner reached.state = .ok plan)
    have keeps {first last : Loaded} {before since : List RegistryLimits}
        (grown : Grows sha256 first before last since) (held : holds first) : holds last :=
      ⟨held.1.grows grown, held.2.1.trans grown.limits_le, fun standing => standing.grows (held.2.2 standing) grown⟩
    have start : holds next := ⟨repeats, grows.limits_le, fun standing => standing.grows asked grows⟩
    obtain ⟨third, final, known, new, ends, still⟩ := after.keeps keeps start more
    rw [run_append, List.foldl_cons] at found ⊢
    obtain ⟨again, limits, standing⟩ := still
    have registered := registers_of_repeats (verify_distinct verified) again
    refine ⟨final, ends.recorded.loads (ends.clients other found).admitted, registered, standing, ?_⟩
    intro wider extended replanned same moment
    refine ends.accepts again found (wider.build replanned) moment (build_eq_some.mpr ?_)
    exact ⟨plan, records, same, verify_again extended limits verified registered, rfl⟩

end System

end FeatureRl
