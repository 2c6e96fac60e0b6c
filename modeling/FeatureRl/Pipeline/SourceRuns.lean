import FeatureRl.Contracts.Samples
import FeatureRl.Pipeline.SourceImports

/-! The original costs of a candidate are imported by one attempt in every run of factory calls. -/

namespace FeatureRl

open Checked
open State (Named InputsRegistered RootsRegistered AttemptsNamed JobsChange)

namespace SourceAdmission

section

variable {sha256 : Bytes → Digest} {contents : Contents} {collapseCosts : List CostRecord → List CostRecord}
  {candidate : ArtifactRef} {ledger next : Ledger}

structure Tracks (sha256 : Bytes → Digest) (contents : Contents) (candidate : ArtifactRef) (system : System) :
    Prop where
  core : Core sha256 contents candidate system.ledger
  returned : ∀ result ∈ system.returned, Finished candidate system.ledger.registry result
  holder : ∀ call, system.holder = some call → PhaseHolds contents candidate system.ledger call.factory call.phase
  others : ∀ call ∈ system.others, call.phase.locked = false ∧
    PhaseHolds contents candidate system.ledger call.factory call.phase

namespace Tracks

variable {system : System}

theorem others_grow (tracks : Tracks sha256 contents candidate system) (grows : Grows candidate system.ledger next) :
    ∀ call ∈ system.others, call.phase.locked = false ∧ PhaseHolds contents candidate next call.factory call.phase :=
  fun call member => ⟨(tracks.others call member).1,
    (tracks.others call member).2.grow (tracks.others call member).1 grows⟩

theorem holder_quiet (tracks : Tracks sha256 contents candidate system) (quiet : Quiet candidate system.ledger next) :
    ∀ call, system.holder = some call → PhaseHolds contents candidate next call.factory call.phase :=
  fun call holds => (tracks.holder call holds).quiet quiet

theorem returned_grow (tracks : Tracks sha256 contents candidate system)
    (grows : Grows candidate system.ledger next) :
    ∀ result ∈ system.returned, Finished candidate next.registry result :=
  fun result member => (tracks.returned result member).grow grows

theorem returned_append {results : List OperationResult} {registry : State} {result : OperationResult}
    (earlier : ∀ other ∈ results, Finished candidate registry other)
    (finished : Finished candidate registry result) :
    ∀ other ∈ results ++ [result], Finished candidate registry other := by
  intro other member
  rcases List.mem_append.mp member with before | last
  · exact earlier other before
  · rw [List.mem_singleton.mp last]
    exact finished

theorem step {after : System} (tracks : Tracks sha256 contents candidate system)
    (step : SystemStep sha256 contents collapseCosts candidate system after) :
    Tracks sha256 contents candidate after := by
  cases step with
  | screenSource factory free =>
      refine ⟨tracks.core, tracks.returned, ?_, tracks.others⟩
      rintro _ ⟨⟩
      trivial
  | recover factory claim found subject =>
      refine ⟨tracks.core, tracks.returned, tracks.holder, ?_⟩
      intro call member
      rcases List.mem_cons.mp member with rfl | running
      · exact ⟨rfl, _, found, subject⟩
      · exact tracks.others call running
  | retryPublication factory claim receipt subject =>
      refine ⟨tracks.core, tracks.returned, tracks.holder, ?_⟩
      intro call member
      rcases List.mem_cons.mp member with rfl | running
      · exact ⟨rfl, subject⟩
      · exact tracks.others call running
  | holderGoes holds step =>
      have steps := steps_of_callStep tracks.core (tracks.holder _ holds) step
      refine ⟨steps.core, tracks.returned_grow steps.grows, ?_, tracks.others_grow steps.grows⟩
      rintro _ ⟨⟩
      exact (steps.goes _ rfl).1
  | holderReturns holds step =>
      have steps := steps_of_callStep tracks.core (tracks.holder _ holds) step
      exact ⟨steps.core, returned_append (tracks.returned_grow steps.grows) (steps.returns _ rfl),
        by rintro _ ⟨⟩, tracks.others_grow steps.grows⟩
  | @otherGoes before rest call ledger phase runs step =>
      have member : call ∈ system.others := by simp [runs]
      obtain ⟨unlocked, facts⟩ := tracks.others call member
      have steps := steps_of_callStep tracks.core facts step
      refine ⟨steps.core, tracks.returned_grow steps.grows, tracks.holder_quiet (steps.quiet unlocked), ?_⟩
      intro other inside
      have grown := tracks.others_grow steps.grows
      rw [runs] at grown
      rcases List.mem_append.mp inside with earlier | later
      · exact grown other (List.mem_append_left _ earlier)
      · rcases List.mem_cons.mp later with rfl | later
        · exact ⟨(steps.goes _ rfl).2 unlocked, (steps.goes _ rfl).1⟩
        · exact grown other (List.mem_append_right _ (List.mem_cons_of_mem _ later))
  | @otherReturns before rest call ledger result runs step =>
      have member : call ∈ system.others := by simp [runs]
      obtain ⟨unlocked, facts⟩ := tracks.others call member
      have steps := steps_of_callStep tracks.core facts step
      refine ⟨steps.core, returned_append (tracks.returned_grow steps.grows) (steps.returns _ rfl),
        tracks.holder_quiet (steps.quiet unlocked), ?_⟩
      intro other inside
      refine tracks.others_grow steps.grows other ?_
      rw [runs]
      rcases List.mem_append.mp inside with earlier | later
      · exact List.mem_append_left _ earlier
      · exact List.mem_append_right _ (List.mem_cons_of_mem _ later)
  | holderStops => exact ⟨tracks.core, tracks.returned, by rintro _ ⟨⟩, tracks.others⟩
  | @otherStops before rest call runs =>
      refine ⟨tracks.core, tracks.returned, tracks.holder, fun other inside => tracks.others other ?_⟩
      rw [runs]
      rcases List.mem_append.mp inside with earlier | later
      · exact List.mem_append_left _ earlier
      · exact List.mem_append_right _ (List.mem_cons_of_mem _ later)
  | @foreign action data registry quiet event =>
      obtain ⟨core, kept⟩ := tracks.core.event event (List.Subset.refl _) tracks.core.recorded quiet.enqueue
        (fun claimed => quiet.moves (.inl claimed)) (by
          intro completing claim _ decoded _ job admits
          have other := quiet.moves (.inr completing) claim decoded job admits.found
          rw [admits.subject] at other
          cases other)
      exact ⟨core, tracks.returned_grow kept.toGrows, tracks.holder_quiet kept, tracks.others_grow kept.toGrows⟩

end Tracks

/-- What holds of the source admissions of a candidate whenever calls were made, crashed, recovered and
retried in any order. -/
structure Sound (contents : Contents) (candidate : ArtifactRef) (system : System) : Prop where
  one_attempt : system.ledger.imports.length ≤ 1
  one_job : ∀ key job other another, Admits candidate system.ledger.registry key job →
    Admits candidate system.ledger.registry other another → key = other
  attempts : ∀ key job, Admits candidate system.ledger.registry key job → job.attempts = system.ledger.imports
  recorded : ∀ entry ∈ system.ledger.recorded, Records contents candidate system.ledger.imports entry
  returned : ∀ result ∈ system.returned, ∃ attempt key job, system.ledger.imports = [attempt] ∧
    Admits candidate system.ledger.registry key job ∧ job.state = .completed ∧ job.result = some result ∧
      (attempt, result.costs) ∈ system.ledger.recorded
  same_result : ∀ result ∈ system.returned, ∀ other ∈ system.returned, result = other
  raises : system.ledger.imports ≠ [] → ∀ factory,
    (∃ refusal, lookup contents factory system.ledger.registry candidate = .error refusal) ∨
      ∃ result, lookup contents factory system.ledger.registry candidate = .ok (.finished result) ∧
        Finished candidate system.ledger.registry result

theorem Core.finished_unique (core : Core sha256 contents candidate ledger) {result other : OperationResult}
    (one : Finished candidate ledger.registry result) (two : Finished candidate ledger.registry other) :
    result = other := by
  obtain ⟨key, job, admits, _, held⟩ := one
  obtain ⟨at_key, another, present, _, kept⟩ := two
  obtain rfl := core.unique key job at_key another admits present
  obtain rfl := Option.some.inj (admits.found.symm.trans present.found)
  exact Option.some.inj (held.symm.trans kept)

theorem Tracks.sound {system : System} (tracks : Tracks sha256 contents candidate system) :
    Sound contents candidate system where
  one_attempt := tracks.core.short
  one_job := tracks.core.unique
  attempts := tracks.core.imports
  recorded := tracks.core.recorded
  returned result member := by
    obtain ⟨key, job, admits, completed, held⟩ := tracks.returned result member
    obtain ⟨attempt, recorded, only, same, inside⟩ := tracks.core.completed key job admits completed
    obtain rfl := Option.some.inj (held.symm.trans same)
    exact ⟨attempt, key, job, only, admits, completed, held, inside⟩
  same_result result member other inside :=
    tracks.core.finished_unique (tracks.returned result member) (tracks.returned other inside)
  raises some_import factory := by
    cases found : lookup contents factory system.ledger.registry candidate with
    | error refusal => exact .inl ⟨refusal, rfl⟩
    | ok decision =>
        cases decision with
        | proceed =>
            obtain ⟨key, job, admits⟩ := tracks.core.backed some_import
            have unclaimed := lookup_proceed tracks.core.inputs tracks.core.roots found admits
            exact absurd ((tracks.core.imports key job admits).symm.trans unclaimed.2) some_import
        | finished result =>
            exact .inr ⟨result, rfl, lookup_finished tracks.core.inputs tracks.core.roots found⟩

theorem rootsRegistered_of_run {limits : RegistryLimits} {events : List (Action × Json.Members)}
    {registry : State} (ran : (State.empty limits).run sha256 events = .ok registry) :
    RootsRegistered registry := by
  have start : RootsRegistered (State.empty limits) := by
    intro notice listed
    cases listed
  refine State.run_induction (motive := fun _ after => RootsRegistered after) start ?_ ran
  intro events before action data after _ roots step
  exact roots.step step

theorem imports_sound (sha256 : Bytes → Digest) (contents : Contents)
    (collapseCosts : List CostRecord → List CostRecord) (candidate : ArtifactRef) (limits : RegistryLimits)
    (events : List (Action × Json.Members)) (registry : State) (system : System)
    (ran : (State.empty limits).run sha256 events = .ok registry)
    (fresh : ∀ key job, ¬ Admits candidate registry key job)
    (reaches : Reaches sha256 contents collapseCosts candidate ⟨⟨registry, [], []⟩, none, [], []⟩ system) :
    Sound contents candidate system := by
  suffices tracks : Tracks sha256 contents candidate system from tracks.sound
  induction reaches with
  | refl =>
      obtain ⟨named, inputs⟩ := State.named_of_run ran
      have attempts := State.attemptsNamed_of_run ran
      have roots := rootsRegistered_of_run ran
      refine ⟨⟨named, inputs, roots, attempts, ?_, ?_, ?_, ?_, by simp, by simp, ?_⟩, by simp, by rintro _ ⟨⟩,
        by simp⟩
      · exact fun key job admits => absurd admits (fresh key job)
      · exact fun key job _ _ admits _ => absurd admits (fresh key job)
      · exact fun key job admits => absurd admits (fresh key job)
      · exact fun some_import => absurd rfl some_import
      · exact fun key job admits => absurd admits (fresh key job)
  | step _ step ih => exact ih.step step

end

namespace Sample

open State.Sample (source settings digestOf claim cost)

def value : CandidateRecord where
  repositoryFamily := ⟨"family", isIdentifier_family⟩
  requestLineage := [⟨"request", by decide⟩]
  partition := .unassigned
  license := ⟨none, none, .unknown, []⟩
  screening := ⟨.success, ⟨"retained", by decide +kernel⟩, []⟩
  costs := [cost]
  originalBytes := 1000

def contents : Contents where
  candidate ref := if ref = source then some value else none
  disposition _ := none
  policy _ := none

def factory : Factory := ⟨State.Sample.spec.implementation, settings⟩

def enqueueing : Json.Members :=
  [("artifacts", .arr []), ("spec", JobSpec.codec.document (sourceSpec factory source))]

def claiming : Json.Members := State.Sample.claiming.2

def proceeds (outcome : Except Refusal Lookup) : Bool :=
  match outcome with
  | .ok .proceed => true
  | _ => false

/-- The first call of a candidate goes on to its claim. -/
def passes (registry : State) : Bool :=
  registry.jobs.size = 0 && proceeds (lookup contents factory registry source) &&
    State.Sample.holds (fun next => (next.apply digestOf .claim claiming).toBool)
      (registry.apply digestOf .enqueue enqueueing)

theorem jobKey_eq : State.jobKey digestOf (sourceSpec factory source) = claim.jobId := by decide +kernel

theorem validated_spec : validated JobSpec.codec (member enqueueing "spec") = .ok (sourceSpec factory source) :=
  State.Sample.validated_document JobSpec.codec (sourceSpec factory source)

theorem validated_claim : validated Claim.codec (member claiming "claim") = .ok claim :=
  State.Sample.validated_document Claim.codec claim

theorem identity_spec : identity digestOf (JobSpec.codec.document (sourceSpec factory source)) = claim.jobId :=
  jobKey_eq

theorem ran : ∃ registry, (State.empty RegistryLimits.default).run digestOf [State.Sample.registration] =
    .ok registry ∧ passes registry = true := by
  have registers : State.Sample.registration.1 = .register := rfl
  simp only [passes, State.run, foldAll, State.apply, registers, reduceCtorEq, if_false, State.applyEvent,
    State.applyInstalled, State.applyEnqueue, State.applyClaim, validated_spec, validated_claim, identity_spec,
    State.Sample.eventRecords_registration, JobRecord.updated_attempts, require, State.Sample.ok_then]
  exact State.Sample.ran_of_holds (by decide +kernel)

end Sample

theorem imports_sound_sample : ∃ registry system,
    Reaches State.Sample.digestOf Sample.contents id State.Sample.source ⟨⟨registry, [], []⟩, none, [], []⟩ system ∧
      system.ledger.imports.length = 1 ∧ Sound Sample.contents State.Sample.source system := by
  obtain ⟨registry, ran, passes⟩ := Sample.ran
  simp only [Sample.passes, Bool.and_eq_true, decide_eq_true_eq] at passes
  obtain ⟨⟨none_yet, proceeds⟩, applied⟩ := passes
  have found : lookup Sample.contents Sample.factory registry State.Sample.source = .ok .proceed := by
    unfold Sample.proceeds at proceeds
    split at proceeds
    next found => exact found
    next => cases proceeds
  cases enqueued : registry.apply State.Sample.digestOf .enqueue Sample.enqueueing with
  | error =>
      rw [enqueued] at applied
      cases applied
  | ok next =>
      rw [enqueued] at applied
      obtain ⟨claimed, claims⟩ := exists_ok applied
      have decoded : JobSpec.codec.validate (member Sample.enqueueing "spec") =
          some (sourceSpec Sample.factory State.Sample.source) := by
        simp [Sample.enqueueing, member, List.lookup_cons, Codec.validate_document]
      have decoded_claim : Claim.codec.validate (member Sample.claiming "claim") = some State.Sample.claim := by
        simp [Sample.claiming, State.Sample.claiming, member, List.lookup_cons, Codec.validate_document]
      have reaches : Reaches State.Sample.digestOf Sample.contents id State.Sample.source
          ⟨⟨registry, [], []⟩, none, [], []⟩ _ :=
        .step (.step (.step (.step .refl
          (.screenSource Sample.factory rfl))
          (.holderGoes rfl (.proceed found)))
          (.holderGoes rfl (.enqueue decoded (State.apply_step enqueued))))
          (.holderGoes rfl (.claim decoded_claim Sample.jobKey_eq.symm (State.apply_step claims)))
      refine ⟨registry, _, reaches, rfl, ?_⟩
      refine imports_sound State.Sample.digestOf Sample.contents id State.Sample.source RegistryLimits.default
        [State.Sample.registration] registry _ ran ?_ reaches
      intro key job admits
      have none_listed : registry.jobs.values = [] :=
        List.length_eq_zero_iff.mp (by rw [Dict.length_values, none_yet])
      have listed := Dict.mem_values.mpr ⟨key, admits.found⟩
      rw [none_listed] at listed
      cases listed

end SourceAdmission

end FeatureRl
