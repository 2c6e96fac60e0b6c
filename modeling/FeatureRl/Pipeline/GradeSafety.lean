import FeatureRl.Contracts.Samples
import FeatureRl.Lib.JsonSize
import FeatureRl.Pipeline.GradeSteps

/-! Runs of a grade job: one dispatch, agreeing completions, and the publications that are reconstructed. -/

namespace FeatureRl

open Checked
open Artifacts (ArtifactStore Hashing)
open State (Named AttemptsNamed)

namespace GradeJobs

section

variable {setting : Setting}

structure Tracks (setting : Setting) (system : System) : Prop where
  core : Core setting system.world
  charged : system.calls.countP Phase.mayDispatch + system.world.dispatched.length ≤ system.world.claims.length
  calls : ∀ phase ∈ system.calls, PhaseHolds setting system.world phase
  retained : ∀ phase ∈ system.retained, phase.mayDispatch = false ∧ PhaseHolds setting system.world phase
  returned : ∀ result ∈ system.returned, Agrees setting system.world result

namespace Tracks

variable {system : System}

theorem free (tracks : Tracks setting system) {phase : Phase} (running : phase ∈ system.calls)
    (dispatches : phase.mayDispatch = true) : system.world.dispatched = [] := by
  have counted : 0 < system.calls.countP Phase.mayDispatch := List.countP_pos_iff.mpr ⟨phase, running, dispatches⟩
  have charged := tracks.charged
  have short := tracks.core.short
  exact List.length_eq_zero_iff.mp (by omega)

theorem call_step (tracks : Tracks setting system) {before after : List Phase} {phase : Phase} {world : World}
    {progress : Progress} (runs : system.calls = before ++ phase :: after)
    (step : CallStep setting system.world phase world progress) :
    Steps setting system.world phase world progress := by
  have running : phase ∈ system.calls := by simp [runs]
  exact steps_of_callStep tracks.core (tracks.calls phase running) (tracks.free running) step

/-- A new call that cannot dispatch. -/
theorem start (tracks : Tracks setting system) {phase : Phase} (idle : phase.mayDispatch = false)
    (holds : PhaseHolds setting system.world phase) :
    Tracks setting { system with calls := phase :: system.calls } where
  core := tracks.core
  charged := by
    rw [List.countP_cons, if_neg (by simp [idle]), Nat.add_zero]
    exact tracks.charged
  calls other member := by
    rcases List.mem_cons.mp member with rfl | running
    · exact holds
    · exact tracks.calls other running
  retained := tracks.retained
  returned := tracks.returned

/-- The other calls and what is kept hold in every world that grew. -/
theorem calls_grow (tracks : Tracks setting system) {before after : List Phase} {phase : Phase} {world : World}
    (runs : system.calls = before ++ phase :: after) (grows : Grows system.world world) :
    ∀ other ∈ before ++ after, PhaseHolds setting world other := by
  intro other member
  refine (tracks.calls other ?_).grow grows
  rw [runs]
  rcases List.mem_append.mp member with earlier | later
  · exact List.mem_append_left _ earlier
  · exact List.mem_append_right _ (List.mem_cons_of_mem _ later)

theorem retained_grow (tracks : Tracks setting system) {world : World} (grows : Grows system.world world) :
    ∀ phase ∈ system.retained, phase.mayDispatch = false ∧ PhaseHolds setting world phase :=
  fun phase member => ⟨(tracks.retained phase member).1, (tracks.retained phase member).2.grow grows⟩

theorem returned_grow (tracks : Tracks setting system) {world : World} (grows : Grows system.world world) :
    ∀ result ∈ system.returned, Agrees setting world result :=
  fun result member => (tracks.returned result member).grow grows

theorem countP_calls {before after : List Phase} {phase : Phase} (runs : system.calls = before ++ phase :: after) :
    system.calls.countP Phase.mayDispatch =
      before.countP Phase.mayDispatch + after.countP Phase.mayDispatch + phase.charge := by
  rw [runs, List.countP_append, List.countP_cons, Phase.charge]
  omega

theorem step {after : System} (tracks : Tracks setting system) (step : SystemStep setting system after) :
    Tracks setting after := by
  have charged := tracks.charged
  cases step with
  | grade => exact tracks.start rfl trivial
  | recover claim => exact tracks.start rfl trivial
  | retry held => exact tracks.start (tracks.retained _ held).1 (tracks.retained _ held).2
  | @goes before rest phase next world runs step =>
      have steps := tracks.call_step runs step
      rw [countP_calls runs] at charged
      refine ⟨steps.core, ?_, ?_, tracks.retained_grow steps.grows, tracks.returned_grow steps.grows⟩
      · have paid : next.charge + world.dispatched.length + system.world.claims.length ≤
            phase.charge + system.world.dispatched.length + world.claims.length := steps.charged
        simp only [List.countP_append, List.countP_cons, Phase.charge] at paid charged ⊢
        omega
      · intro other member
        have grown := tracks.calls_grow runs steps.grows
        rcases List.mem_append.mp member with earlier | later
        · exact grown other (List.mem_append_left _ earlier)
        · rcases List.mem_cons.mp later with rfl | later
          · exact steps.holds
          · exact grown other (List.mem_append_right _ later)
  | @returns before rest phase world result runs step =>
      have steps := tracks.call_step runs step
      rw [countP_calls runs] at charged
      refine ⟨steps.core, ?_, tracks.calls_grow runs steps.grows, tracks.retained_grow steps.grows, ?_⟩
      · have paid : 0 + world.dispatched.length + system.world.claims.length ≤
            phase.charge + system.world.dispatched.length + world.claims.length := steps.charged
        simp only [List.countP_append]
        omega
      · intro other member
        rcases List.mem_append.mp member with earlier | last
        · exact tracks.returned_grow steps.grows other earlier
        · obtain rfl := List.mem_singleton.mp last
          exact steps.holds
  | @raises before rest phase world kept runs step =>
      have steps := tracks.call_step runs step
      rw [countP_calls runs] at charged
      refine ⟨steps.core, ?_, tracks.calls_grow runs steps.grows, ?_, tracks.returned_grow steps.grows⟩
      · have paid : 0 + world.dispatched.length + system.world.claims.length ≤
            phase.charge + system.world.dispatched.length + world.claims.length := steps.charged
        simp only [List.countP_append]
        omega
      · intro other member
        rcases List.mem_append.mp member with earlier | last
        · exact tracks.retained_grow steps.grows other earlier
        · exact steps.holds other last
  | @crash before rest phase runs =>
      rw [countP_calls runs] at charged
      refine ⟨tracks.core, ?_, ?_, tracks.retained, tracks.returned⟩
      · simp only [List.countP_append]
        omega
      · exact tracks.calls_grow runs (.refl _)
  | @foreign action data registry quiet event =>
      have grows := Grows.registry system.world registry
      refine ⟨tracks.core.event event quiet.enqueue (fun claims => quiet.moves (.inl claims)) ?_ ?_, charged,
        fun phase member => (tracks.calls phase member).grow grows, tracks.retained_grow grows,
        tracks.returned_grow grows⟩
      · intro reconciling claim _ decoded _ other member same
        exact absurd same (quiet.reconcile reconciling claim decoded other member)
      · intro completing claim _ decoded _ own
        exact absurd own (quiet.moves (.inr completing) claim decoded)
  | @stored store larger =>
      have grows : Grows system.world { system.world with store := store } := ⟨larger, fun _ same => same⟩
      refine ⟨tracks.core.change rfl rfl grows tracks.core.dispatched ?_, charged,
        fun phase member => (tracks.calls phase member).grow grows, tracks.retained_grow grows,
        tracks.returned_grow grows⟩
      exact fun entry member => (tracks.core.accepted entry member).grow larger

end Tracks

theorem Agrees.same {world : World} {result other : OperationResult} (one : Agrees setting world result)
    (two : Agrees setting world other) :
    result.artifacts.head? = other.artifacts.head? ∧ result.disposition = other.disposition ∧
      result.costs = other.costs := by
  obtain ⟨graded, final, outcome, finished, disposition, artifacts, costs⟩ := one
  obtain ⟨again, another, present, ends, its_disposition, its_artifacts, its_costs⟩ := two
  obtain rfl := Option.some.inj (outcome.symm.trans present)
  obtain rfl := Option.some.inj (finished.symm.trans ends)
  exact ⟨artifacts.trans its_artifacts.symm, disposition.trans its_disposition.symm, costs.trans its_costs.symm⟩

/-- What is expected of a grade job whenever calls were made, crashed, recovered and retried in any order. -/
structure Sound (setting : Setting) (system : System) : Prop where
  one_dispatch : system.world.dispatched.length ≤ 1
  reconstructed : ∀ entry ∈ system.world.accepted,
    recoverPending setting.hashing system.world.store entry.claim entry.ref = .ok (setting.request, entry.pending)
  returned : ∀ result ∈ system.returned, Agrees setting system.world result
  completed : ∀ job, system.world.registry.jobs.get? setting.key = some job → job.state = .completed →
    ∃ result, job.result = some result ∧ Agrees setting system.world result
  same : ∀ result ∈ system.returned, ∀ other ∈ system.returned,
    result.artifacts.head? = other.artifacts.head? ∧ result.disposition = other.disposition ∧
      result.costs = other.costs

theorem Tracks.sound_iff {system : System} (tracks : Tracks setting system) :
    Sound setting system ↔ ∀ entry ∈ system.world.accepted, Readable entry.pending := by
  constructor
  · intro sound entry member
    have kept := tracks.core.accepted entry member _ (.refl _) entry.claim (setting.request, entry.pending)
    exact (kept.mp (sound.reconstructed entry member)).2.2
  · intro readable
    refine ⟨?_, ?_, tracks.returned, tracks.core.completed, ?_⟩
    · have charged := tracks.charged
      have short := tracks.core.short
      omega
    · intro entry member
      have kept := tracks.core.accepted entry member _ (.refl _) entry.claim (setting.request, entry.pending)
      exact kept.mpr ⟨rfl, rfl, readable entry member⟩
    · exact fun result member other inside => (tracks.returned result member).same (tracks.returned other inside)

def System.start (registry : State) (store : ArtifactStore) : System :=
  ⟨⟨registry, store, [], [], none, []⟩, [], [], []⟩

theorem tracks_of_reaches {limits : RegistryLimits} {events : List (Action × Json.Members)} {registry : State}
    {store : ArtifactStore} {system : System}
    (ran : (State.empty limits).run setting.sha256 events = .ok registry)
    (fresh : ∀ key job, registry.jobs.get? key = some job → key ≠ setting.key ∧ job.spec ≠ setting.spec)
    (reaches : Reaches setting (.start registry store) system) : Tracks setting system := by
  induction reaches with
  | refl =>
      obtain ⟨named, _⟩ := State.named_of_run ran
      refine ⟨⟨named, State.attemptsNamed_of_run ran, ?_, ?_, fun some_claim => absurd rfl some_claim,
        Nat.zero_le _, by rintro _ ⟨⟩, by rintro _ ⟨⟩, by rintro _ ⟨⟩, ?_⟩, Nat.le_refl _, by rintro _ ⟨⟩,
        by rintro _ ⟨⟩, by rintro _ ⟨⟩⟩
      · exact fun key job found same => absurd same (fresh key job found).2
      · exact fun job found => absurd rfl (fresh _ job found).1
      · exact fun job found => absurd rfl (fresh _ job found).1
  | step _ step ih => exact ih.step step

end

/-! ### A sample run: a grade is dispatched, its evidence is not published, and it is retained -/

namespace Sample

def digits (digit : Char) (hex : isLowerHex digit = true) : Digest :=
  ⟨String.ofList (List.replicate 64 digit), isDigest_replicate hex⟩

def artifact (sha256 : Digest) (kind : Identifier) (encoding : Encoding) : ArtifactRef :=
  ⟨sha256, kind, 1, .private, encoding, firstSchema⟩

def task : ArtifactRef := artifact (digits '1' isLowerHex_1) ⟨"TaskBundle", isIdentifier_taskBundle⟩ .json

def submission : ArtifactRef := artifact (digits '2' isLowerHex_2) ⟨"m4-submission", isIdentifier_submission⟩ .bytes

def request : ArtifactRef := artifact (digits '3' isLowerHex_3) ⟨"m6-grade-request", by decide⟩ .bytes

def policy : ArtifactRef := artifact (digits '4' isLowerHex_4) ⟨"m6-grade-policy", by decide⟩ .bytes

def payloadRef : ArtifactRef := artifact (digits '5' isLowerHex_5) runtimeKind .bytes

def pendingRef : ArtifactRef := artifact (digits '6' isLowerHex_6) pendingKind .bytes

def revision : Revision := ⟨"797efd83f8c15deef7f4d4762a8c92d8b5a9305f", isRevision_sample⟩

def spec : JobSpec where
  operation := .grade
  inputs := ⟨[task, submission, request], by decide +kernel⟩
  configuration := policy
  implementation := revision
  invocation := ⟨"first", State.Sample.isName_first⟩
  attemptLimit := ⟨1, within_100⟩
  distinct := by decide +kernel

def claim : Claim where
  jobId := digits 'a' isLowerHex_a
  attemptId := digits 'b' isLowerHex_b
  owner := ⟨"feature_rl.pipeline.Factory.grade", by decide +kernel⟩
  claimKey := ⟨"try", by decide +kernel⟩
  token := digits '0' isLowerHex_0

def costs : List CostRecord :=
  [.construction, .execution, .storage, .verifier].map fun category =>
    unknownCost category ⟨"Sum of attributable records", by decide +kernel⟩

def observation (revision : Bounded 1 10000) (receipts : Refs) (costs : List CostRecord)
    (nonempty : receipts.val ≠ [] ∧ costs ≠ [] ∧ costs.length ≤ 64)
    (unique : (costs.map CostRecord.category).Nodup ∧ receipts.val.Nodup) : CostObservation :=
  ⟨⟨"m6-grade", by decide +kernel⟩, ⟨claim.attemptId.val, by decide +kernel⟩, revision, receipts, costs, nonempty,
    unique⟩

def intent : CostObservation :=
  observation ⟨1, within_10000⟩ ⟨[request], by decide⟩ intentCosts (by decide) (by decide +kernel)

def actual : CostObservation :=
  observation ⟨2, rfl⟩ ⟨[request], by decide⟩ costs (by decide) (by decide +kernel)

def linked : CostObservation :=
  observation ⟨3, rfl⟩ ⟨[request, pendingRef], by decide +kernel⟩ costs (by decide) (by decide +kernel)

/-- Digests of the documents that the run hashes, told apart by a byte of their first key and their length. -/
def digestOf (bytes : Bytes) : Digest :=
  match (bytes.drop 10).head? with
  | some 108 => claim.jobId
  | some 121 => claim.attemptId
  | _ =>
      if bytes.length = 1299 then digits 'c' isLowerHex_c
      else if bytes.length = 1275 then digits 'd' isLowerHex_d
      else digits 'e' isLowerHex_e

def hashing : Hashing where
  envelope envelope :=
    if envelope.kind = runtimeKind then digits '5' isLowerHex_5
    else if envelope.kind = pendingKind then digits '6' isLowerHex_6
    else digits '7' isLowerHex_7
  bytes _ := digits '8' isLowerHex_8

def setting : Setting where
  sha256 := digestOf
  hashing := hashing
  graderRevision := revision
  collapseCosts _ := costs
  task := task
  submission := submission
  caseSeed := 0
  request := request
  spec := spec
  operation := rfl
  inputs := rfl
  attemptLimit := rfl
  kind := rfl

def registering (refs : List ArtifactRef) : Json.Members := [("artifacts", .arr (refs.map State.Sample.record))]

def enqueueing : Json.Members := [("artifacts", .arr []), ("spec", JobSpec.codec.document spec)]

def claiming : Json.Members := [("artifacts", .arr []), ("claim", Claim.codec.document claim)]

def reconciling (observation : CostObservation) : Json.Members :=
  [("artifacts", .arr []), ("claim", Claim.codec.document claim),
    ("observation", CostObservation.codec.document observation)]

/-- The observations of the attempt. -/
def seen (state : State) : Option (List CostObservation) :=
  match observations state claim with
  | .ok items => some (items.map ObservationRecord.observation)
  | .error _ => none

open State.Sample (holds)

def passes (registry : State) : Bool :=
  registry.jobs.size = 0 && holds (fun queued => queued.observations.size = 0 &&
    holds (fun claimed => seen claimed = some [] && holds (fun intended =>
      seen intended = some [intent] && holds (fun noted => seen noted = some [actual] &&
        holds (fun registered => seen registered = some [actual] &&
          (registered.apply digestOf .reconcile (reconciling linked)).toBool)
          (noted.apply digestOf .register (registering [payloadRef, pendingRef])))
        (intended.apply digestOf .reconcile (reconciling actual)))
      (claimed.apply digestOf .reconcile (reconciling intent)))
    (queued.apply digestOf .claim claiming)) (registry.apply digestOf .enqueue enqueueing)

theorem decoded_claim (observation : CostObservation) :
    Claim.codec.validate (member (reconciling observation) "claim") = some claim :=
  Claim.codec.validate_document claim

theorem decoded_observation (observation : CostObservation) :
    CostObservation.codec.validate (member (reconciling observation) "observation") = some observation :=
  CostObservation.codec.validate_document observation

theorem validated_spec : validated JobSpec.codec (member enqueueing "spec") = .ok spec :=
  State.Sample.validated_document JobSpec.codec spec

theorem validated_claim : validated Claim.codec (member claiming "claim") = .ok claim :=
  State.Sample.validated_document Claim.codec claim

theorem validated_claimed (observation : CostObservation) :
    validated Claim.codec (member (reconciling observation) "claim") = .ok claim :=
  State.Sample.validated_document Claim.codec claim

theorem validated_observation (observation : CostObservation) :
    validated CostObservation.codec (member (reconciling observation) "observation") = .ok observation :=
  State.Sample.validated_document CostObservation.codec observation

theorem eventRecords_registering (refs : List ArtifactRef) : State.eventRecords (registering refs) =
    .ok (refs.map fun ref => ⟨ref, Refs.empty⟩) :=
  State.Sample.eventRecords_records refs

theorem identity_spec : identity digestOf (JobSpec.codec.document spec) = claim.jobId := by decide +kernel

theorem identity_observation (observation : CostObservation) {size : Nat}
    (first : ((State.observationDocument claim.attemptId observation).canonical.drop 10).head? = some 105)
    (counted : Json.plainSize (State.observationDocument claim.attemptId observation) = some size) :
    identity digestOf (State.observationDocument claim.attemptId observation) =
      if size = 1299 then digits 'c' isLowerHex_c else if size = 1275 then digits 'd' isLowerHex_d else digits 'e' isLowerHex_e := by
  rw [identity, digestOf, first]
  simp only [Json.length_canonical_plain counted]
  rfl

theorem identity_intent : identity digestOf (State.observationDocument claim.attemptId intent) = digits 'c' isLowerHex_c :=
  @identity_observation intent 1299 (by decide +kernel) (by decide +kernel)

theorem identity_actual : identity digestOf (State.observationDocument claim.attemptId actual) = digits 'd' isLowerHex_d :=
  @identity_observation actual 1275 (by decide +kernel) (by decide +kernel)

theorem identity_linked : identity digestOf (State.observationDocument claim.attemptId linked) = digits 'e' isLowerHex_e :=
  @identity_observation linked 1440 (by decide +kernel) (by decide +kernel)

theorem ran : ∃ registry, (State.empty RegistryLimits.default).run digestOf
    [(.register, registering [task, submission, request, policy])] = .ok registry ∧ passes registry = true := by
  -- reading the documents back and hashing them is done by lemmas, the rest is evaluated
  simp only [passes, State.run, foldAll, State.apply, reduceCtorEq, if_false, State.applyEvent,
    State.applyInstalled, State.applyEnqueue, State.applyClaim, State.applyReconcile, validated_spec,
    validated_claim, validated_claimed, validated_observation, eventRecords_registering, identity_spec,
    identity_intent, identity_actual, identity_linked, JobRecord.updated_attempts, require, State.Sample.ok_then]
  exact State.Sample.ran_of_holds (by decide +kernel)

theorem key_eq : setting.key = claim.jobId := by decide +kernel

theorem holds_spec {test : State → Bool} {outcome : Outcome State} (ok : holds test outcome = true) :
    ∃ state, outcome = .ok state ∧ test state = true := by
  cases outcome with
  | ok state => exact ⟨state, rfl, ok⟩
  | error => cases ok

def receipt : StoredReceipt where
  grade := ⟨task, submission, none, 0, none, none, .infrastructure, none, "evidence is pending", [], [], none, [],
    false⟩
  implementationRevision := revision
  recordedAt := ⟨2026, 1, 1, 0, 0, 0, 0, newYear.valid⟩
  coherent := by decide +kernel

def graderCosts : List CostRecord := [unknownCost .verifier ⟨"unmeasured", isText_unmeasured⟩]

/-- A grade whose only runtime evidence has this payload. -/
def pending (payload : Bytes) : GradePublicationFailed where
  receipt := receipt
  costs := graderCosts
  scope := .realIntegration
  runtimePublications := [⟨payload, ⟨"environment-execution", by decide⟩, .private⟩]

def store : ArtifactStore := ⟨.controller, Dict.empty⟩

def published : RuntimePublication := ⟨payloadRef, ⟨"environment-execution", by decide⟩, .private⟩

/-- The document that is retained; it names the payload and does not contain it. -/
def document : Bytes :=
  PendingGrade.codec.dump ⟨claim, request, receipt, graderCosts, .realIntegration, [published]⟩

def withPayload (payload : Bytes) : ArtifactStore :=
  ⟨.controller, Dict.empty.set (digits '5' isLowerHex_5) (ArtifactStore.opaqueBytes payload runtimeKind .private)⟩

theorem retained (payload : Bytes) :
    ∃ next, retainPending hashing store claim request (pending payload) = .ok (next, pendingRef) := by
  have bounded : ¬ maxDocument < document.length := by
    have size : document.length = 1734 := Json.length_canonical_plain (by decide +kernel)
    rw [size]
    decide
  have stored : putPublications hashing store (pending payload).runtimePublications =
      .ok (withPayload payload, [published]) := rfl
  have absent : (withPayload payload).objects.get? (digits '6' isLowerHex_6) = none := by
    rw [withPayload, Dict.get?_set_ne _ _ (by decide +kernel)]
    rfl
  have fresh : hashing.envelope (ArtifactStore.opaqueBytes document pendingKind .private) = digits '6' isLowerHex_6 := rfl
  have written : ∃ next, putRecord hashing (withPayload payload) document pendingKind = .ok (next, pendingRef) := by
    simp only [putRecord, bind_eq_ok, refuse_eq_ok, ArtifactStore.putBytes_eq_ok, ArtifactStore.put, fresh, absent]
    exact ⟨_, (), bounded, by decide, (), rfl, rfl⟩
  obtain ⟨next, written⟩ := written
  refine ⟨next, ?_⟩
  simp only [retainPending, bind_eq_ok]
  exact ⟨(withPayload payload, [published]), stored, written⟩

theorem seen_none {state : State} (ok : seen state = some []) : observations state claim = .ok [] := by
  unfold seen at ok
  split at ok
  next items found =>
    obtain rfl := List.map_eq_nil_iff.mp (Option.some.inj ok)
    exact found
  next => cases ok

theorem seen_one {state : State} {observation : CostObservation} (ok : seen state = some [observation])
    (source : observation.source.val = "m6-grade") :
    ∃ item, item.observation = observation ∧ Snapshot state claim item := by
  unfold seen at ok
  split at ok
  next items found =>
    obtain ⟨item, rfl, same⟩ := List.map_eq_singleton_iff.mp (Option.some.inj ok)
    exact ⟨item, same, found, same ▸ source⟩
  next => cases ok

theorem values_of_size {κ ν : Type} [DecidableEq κ] {dict : Dict κ ν} (none_yet : dict.size = 0) :
    dict.values = [] :=
  List.length_eq_zero_iff.mp (by rw [Dict.length_values, none_yet])

theorem register_foreign (world : World) (data : Json.Members) : Foreign setting world .register data where
  enqueue := by rintro ⟨⟩
  moves := by
    intro moved
    rcases moved with same | same
    · cases same
    · cases same
  reconcile := by rintro ⟨⟩

theorem goes_alone {system : System} {phase next : Phase} {world : World} (runs : system.calls = [phase])
    (step : CallStep setting system.world phase world (.goes next)) :
    SystemStep setting system { system with world := world, calls := [next] } :=
  @SystemStep.goes setting system [] [] phase next world runs step

/-- Whatever the payload, a run retains the pending grade. -/
theorem retains (payload : Bytes) : ∃ registry system,
    (State.empty RegistryLimits.default).run digestOf
      [(.register, registering [task, submission, request, policy])] = .ok registry ∧
    (∀ key job, registry.jobs.get? key = some job → key ≠ setting.key ∧ job.spec ≠ setting.spec) ∧
    Reaches setting (.start registry store) system ∧
    system.world.accepted = [⟨claim, pendingRef, pending payload⟩] := by
  obtain ⟨registry, ran, passes⟩ := ran
  simp only [Sample.passes, Bool.and_eq_true, decide_eq_true_eq] at passes
  obtain ⟨none_yet, passes⟩ := passes
  obtain ⟨queued, enqueues, passes⟩ := holds_spec passes
  simp only [Bool.and_eq_true, decide_eq_true_eq] at passes
  obtain ⟨unobserved, passes⟩ := passes
  obtain ⟨claimed, claims, passes⟩ := holds_spec passes
  simp only [Bool.and_eq_true, decide_eq_true_eq] at passes
  obtain ⟨nothing_seen, passes⟩ := passes
  obtain ⟨intended, intends, passes⟩ := holds_spec passes
  simp only [Bool.and_eq_true, decide_eq_true_eq] at passes
  obtain ⟨intent_seen, passes⟩ := passes
  obtain ⟨noted, notes, passes⟩ := holds_spec passes
  simp only [Bool.and_eq_true, decide_eq_true_eq] at passes
  obtain ⟨actual_seen, passes⟩ := passes
  obtain ⟨registered, registers, passes⟩ := holds_spec passes
  simp only [Bool.and_eq_true, decide_eq_true_eq] at passes
  obtain ⟨still_seen, passes⟩ := passes
  obtain ⟨last, links⟩ := exists_ok passes
  obtain ⟨first, first_is, first_snapshot⟩ := seen_one intent_seen rfl
  obtain ⟨second, second_is, second_snapshot⟩ := seen_one still_seen rfl
  obtain ⟨next, kept⟩ := retained payload
  have decoded_spec : JobSpec.codec.validate (member enqueueing "spec") = some setting.spec := by
    simp [enqueueing, member, List.lookup_cons, Codec.validate_document, setting]
  have decoded : Claim.codec.validate (member claiming "claim") = some claim := by
    simp [claiming, member, List.lookup_cons, Codec.validate_document]
  have unused : ∀ item ∈ queued.observations.values, item.attemptId ≠ claim.attemptId := by
    intro item present
    rw [values_of_size unobserved] at present
    cases present
  have reaches : Reaches setting (.start registry store) (.start registry store) := .refl
  replace reaches := reaches.step .grade
  replace reaches := reaches.step (goes_alone rfl (.enqueue decoded_spec (State.apply_step enqueues)))
  replace reaches := reaches.step (goes_alone rfl (.claim decoded key_eq.symm unused (State.apply_step claims)))
  replace reaches := reaches.step (goes_alone rfl (.intend (.first (seen_none nothing_seen) (decoded_claim intent)
    (decoded_observation intent) ⟨rfl, rfl, rfl, by decide +kernel, rfl⟩ (State.apply_step intends))))
  replace reaches := reaches.step (goes_alone rfl (@CallStep.dispatchPending setting _ claim (pending payload)))
  replace reaches := reaches.step (goes_alone rfl (.note (.further first_snapshot (decoded_claim actual)
    (decoded_observation actual) (by
      rw [first_is]
      exact ⟨rfl, rfl, rfl, by decide +kernel, rfl⟩) (State.apply_step notes))))
  replace reaches := reaches.step (goes_alone rfl (.keep kept))
  replace reaches := reaches.step (@SystemStep.foreign setting _ .register _ _ (register_foreign _ _)
    (State.apply_step registers))
  replace reaches := reaches.step (@SystemStep.raises setting _ [] [] _ _ _ rfl
    (.link (.further second_snapshot (decoded_claim linked) (decoded_observation linked) (by
      rw [second_is]
      exact ⟨rfl, rfl, rfl, by decide +kernel, rfl⟩) (State.apply_step links))))
  refine ⟨registry, _, ran, ?_, reaches, rfl⟩
  intro key job found
  have listed := Dict.mem_values.mpr ⟨key, found⟩
  rw [values_of_size none_yet] at listed
  cases listed

end Sample

end GradeJobs

end FeatureRl
