import FeatureRl.Contracts.Samples
import FeatureRl.Pipeline.Attempts

/-! Every authoring attempt was reserved once, within the caps of its candidate and of the batch. -/

namespace FeatureRl

open Checked
open State (Named InputsRegistered Follows JobsChange)

namespace Authoring

section

variable {sha256 : Bytes → Digest} {records : ArtifactRef → Option AuthoringRequest} {batch : AuthoringBatch}

/-! ### Lanes -/

def inLane (records : ArtifactRef → Option AuthoringRequest) (candidate : ArtifactRef) (lane : Identifier)
    (job : JobRecord) : Bool :=
  (authored records candidate job).any fun request => request.lane = lane

def laneCount (records : ArtifactRef → Option AuthoringRequest) (state : State) (candidate : ArtifactRef)
    (lane : Identifier) : Nat := state.jobs.values.countP (inLane records candidate lane)

theorem inLane_congr {candidate : ArtifactRef} {lane : Identifier} {job other : JobRecord}
    (same : other.spec = job.spec) : inLane records candidate lane other = inLane records candidate lane job := by
  rw [inLane, inLane, authored_congr same]

theorem length_lane (state : State) (candidate : ArtifactRef) (lane : Identifier) :
    ((calls records state candidate).filter fun entry => entry.2.lane = lane).length =
      laneCount records state candidate lane := by
  rw [← List.countP_eq_length_filter, calls, List.countP_filterMap, laneCount]
  refine List.countP_congr fun job _ => ?_
  rw [inLane]
  cases authored records candidate job <;> simp

def AllCompleted (records : ArtifactRef → Option AuthoringRequest) (state : State) (candidate : ArtifactRef) :
    Prop := ∀ entry ∈ calls records state candidate, entry.1.state = .completed

/-! ### Registry events -/

/-- No new attempt. -/
structure Evolves (records : ArtifactRef → Option AuthoringRequest) (before after : State) : Prop where
  named : Named after
  inputs : InputsRegistered after
  kept : ∀ key job, before.jobs.get? key = some job →
    ∃ next, after.jobs.get? key = some next ∧ Follows job next
  old : ∀ key next candidate request, after.jobs.get? key = some next →
    authored records candidate next = some request → ∃ job, before.jobs.get? key = some job ∧ Follows job next
  count : ∀ candidate lane, laneCount records after candidate lane = laneCount records before candidate lane

theorem countP_of_change {state next : State} {action : Action} {data : Json.Members}
    (change : JobsChange sha256 data action state next) {test : JobRecord → Bool}
    (congr : ∀ job other : JobRecord, other.spec = job.spec → test other = test job)
    (quiet : action = .enqueue → ∀ spec, JobSpec.codec.validate (member data "spec") = some spec →
      ∀ key, test (State.newJob key spec) = false) :
    next.jobs.values.countP test = state.jobs.values.countP test := by
  have updated : ∀ {key : Digest} {job after : JobRecord}, state.jobs.get? key = some job →
      after.spec = job.spec → (state.jobs.set key after).values.countP test = state.jobs.values.countP test := by
    intro key job after found same
    have counted := Dict.countP_values_set_of_present test found after
    rw [congr job after same] at counted
    omega
  cases change with
  | same unchanged => rw [unchanged]
  | added enqueued decoded fresh known jobs =>
      rw [jobs, Dict.values_set_of_absent fresh, List.countP_append]
      simp [quiet enqueued _ decoded]
  | claimed claims decoded found queued below jobs =>
      rw [jobs]
      exact updated found rfl
  | moved found unfinished jobs spec jobId attempts =>
      rw [jobs]
      exact updated found spec

theorem authored_of_quiet {candidate : ArtifactRef} {job : JobRecord} (quiet : isAuthoring job.spec = false) :
    authored records candidate job = none := by
  rw [authored, if_neg (by simp [quiet])]

theorem evolves_of_step {state next : State} {action : Action} {data : Json.Members} (named : Named state)
    (inputs : InputsRegistered state) (step : State.Step sha256 state data action next)
    (quiet : AddsNoAttempt action data) : Evolves records state next := by
  have change := State.Step.jobsChange named step
  refine ⟨named.step step, inputs.step named step, fun key job found => change.kept found, ?_, ?_⟩
  · intro key after candidate request found read
    rcases change.follows found with earlier | ⟨enqueued, _, spec, decoded, rfl⟩
    · exact earlier
    · rw [authored_of_quiet (quiet enqueued spec decoded)] at read
      cases read
  · intro candidate lane
    refine countP_of_change change (fun job other same => inLane_congr same) ?_
    intro enqueued spec decoded key
    rw [inLane, authored_of_quiet (quiet enqueued spec decoded)]
    rfl

theorem AllCompleted.evolve {before after : State} {candidate : ArtifactRef}
    (completed : AllCompleted records before candidate) (evolves : Evolves records before after) :
    AllCompleted records after candidate := by
  rintro ⟨next, request⟩ member
  obtain ⟨⟨key, found⟩, read⟩ := mem_calls.mp member
  obtain ⟨job, earlier, follows⟩ := evolves.old key next candidate request found read
  refine follows.completed (completed (job, request) (mem_calls.mpr ⟨⟨key, earlier⟩, ?_⟩))
  rw [← authored_congr follows.spec]
  exact read

/-! ### The invariant -/

/-- A new attempt at the candidate may be enqueued. -/
structure Proposes (records : ArtifactRef → Option AuthoringRequest) (registry : State) (held : Call)
    (request : AuthoringRequest) : Prop where
  candidate : request.candidate = held.candidate
  call : request.call = held.call
  completed : AllCompleted records registry request.candidate
  room : laneCount records registry request.candidate request.lane < 3

def Reserves (system : System) (jobId : Digest) : Prop := ∃ entry ∈ system.reservations, entry.jobId = jobId

def IsClaimed (system : System) (jobId : Digest) : Prop :=
  ∃ job, system.registry.jobs.get? jobId = some job ∧ job.attempts ≠ []

def PhaseHolds (records : ArtifactRef → Option AuthoringRequest) (batch : AuthoringBatch) (system : System)
    (held : Call) : Prop :=
  match held.phase with
  | .started => True
  | .proposed request => Proposes records system.registry held request
  | .checked request at_check => Proposes records system.registry held request ∧
      Affordable records batch at_check request.candidate request.call
  | .queued jobId => Reserves system jobId
  | .claimed jobId => Reserves system jobId ∧ IsClaimed system jobId ∧ jobId ∉ system.dispatched
  | .ready jobId => Reserves system jobId ∧ IsClaimed system jobId ∧ jobId ∉ system.dispatched

/-- When it was enqueued, the earlier attempts at the candidate were completed, and when it was checked, its
call was affordable. -/
structure Admitted (records : ArtifactRef → Option AuthoringRequest) (batch : AuthoringBatch)
    (entry : Reservation) : Prop where
  member : entry.request.candidate ∈ batch.candidates
  completed : AllCompleted records entry.atEnqueue entry.request.candidate
  affordable : Affordable records batch entry.atCheck entry.request.candidate entry.request.call

structure Tracks (records : ArtifactRef → Option AuthoringRequest) (batch : AuthoringBatch) (system : System) :
    Prop where
  named : Named system.registry
  inputs : InputsRegistered system.registry
  covered : ∀ key job candidate request, system.registry.jobs.get? key = some job →
    candidate ∈ batch.candidates → authored records candidate job = some request → Reserves system key
  reserved : ∀ entry ∈ system.reservations, ∃ job, system.registry.jobs.get? entry.jobId = some job ∧
    job.spec.attemptLimit.val = 1
  once : system.dispatched.Nodup
  dispatched : ∀ jobId ∈ system.dispatched, Reserves system jobId ∧ IsClaimed system jobId
  lanes : ∀ candidate ∈ batch.candidates, ∀ lane, laneCount records system.registry candidate lane ≤ 3
  admitted : ∀ entry ∈ system.reservations, Admitted records batch entry
  holder : ∀ held ∈ system.holder, held.candidate ∈ batch.candidates ∧ PhaseHolds records batch system held

namespace Tracks

theorem claimed_of_evolves {system : System} {next : State} (evolves : Evolves records system.registry next)
    {jobId : Digest} (claimed : IsClaimed system jobId) :
    IsClaimed { system with registry := next } jobId := by
  obtain ⟨job, found, started⟩ := claimed
  obtain ⟨after, present, follows⟩ := evolves.kept jobId job found
  refine ⟨after, present, fun empty => started ?_⟩
  have attempts := follows.attempts
  rw [empty] at attempts
  exact List.prefix_nil.mp attempts

theorem Proposes.evolve {registry next : State} {held : Call} {request : AuthoringRequest}
    (proposes : Proposes records registry held request) (evolves : Evolves records registry next) :
    Proposes records next held request :=
  ⟨proposes.candidate, proposes.call, proposes.completed.evolve evolves, evolves.count _ _ ▸ proposes.room⟩

/-- Events that add no attempt keep the invariant. -/
theorem evolve {system : System} (tracks : Tracks records batch system) {next : State}
    (evolves : Evolves records system.registry next) : Tracks records batch { system with registry := next } where
  named := evolves.named
  inputs := evolves.inputs
  covered key after candidate request found member read := by
    obtain ⟨job, earlier, follows⟩ := evolves.old key after candidate request found read
    exact tracks.covered key job candidate request earlier member (authored_congr follows.spec ▸ read)
  reserved entry member := by
    obtain ⟨job, found, limit⟩ := tracks.reserved entry member
    obtain ⟨after, present, follows⟩ := evolves.kept _ job found
    exact ⟨after, present, follows.spec ▸ limit⟩
  once := tracks.once
  dispatched jobId member :=
    ⟨(tracks.dispatched jobId member).1, claimed_of_evolves evolves (tracks.dispatched jobId member).2⟩
  lanes candidate member lane := evolves.count candidate lane ▸ tracks.lanes candidate member lane
  admitted := tracks.admitted
  holder held holds := by
    obtain ⟨member, phase⟩ := tracks.holder held holds
    refine ⟨member, ?_⟩
    unfold PhaseHolds at phase ⊢
    split at phase
    next => trivial
    next request => exact Proposes.evolve phase evolves
    next request at_check => exact ⟨Proposes.evolve phase.1 evolves, phase.2⟩
    next jobId => exact phase
    next jobId => exact ⟨phase.1, claimed_of_evolves evolves phase.2.1, phase.2.2⟩
    next jobId => exact ⟨phase.1, claimed_of_evolves evolves phase.2.1, phase.2.2⟩

/-- A change of the holder alone. -/
theorem hold {system : System} (tracks : Tracks records batch system) {holder : Option Call}
    (holds : ∀ held ∈ holder, held.candidate ∈ batch.candidates ∧ PhaseHolds records batch system held) :
    Tracks records batch { system with holder := holder } :=
  ⟨tracks.named, tracks.inputs, tracks.covered, tracks.reserved, tracks.once, tracks.dispatched, tracks.lanes,
    tracks.admitted, holds⟩

theorem move {system : System} (tracks : Tracks records batch system) {held : Call}
    (holds : system.holder = some held) {phase : Phase}
    (next : PhaseHolds records batch system { held with phase := phase }) :
    Tracks records batch { system with holder := some { held with phase := phase } } :=
  tracks.hold fun _ same => by
    obtain rfl := Option.some.inj same
    exact ⟨(tracks.holder held holds).1, next⟩

/-! ### Steps -/

theorem propose {system : System} (tracks : Tracks records batch system) {held : Call} {frontier : ArtifactRef}
    {existing : List (JobRecord × AuthoringRequest)}
    (listed : jobs records system.registry held.candidate = .ok existing)
    (decided : decide held.factory existing held.call frontier = .propose) :
    Proposes records system.registry held ⟨held.candidate, frontier, held.call, stageLane held.call⟩ := by
  have perm := jobs_perm tracks.named listed
  rw [decide] at decided
  split at decided
  next => split at decided <;> cases decided
  next =>
    split at decided
    next free =>
      refine ⟨rfl, rfl, fun entry member => ?_, ?_⟩
      · simpa using List.all_eq_true.mp free.1 entry (perm.mem_iff.mpr member)
      · rw [← length_lane, ← (perm.filter _).length_eq]
        exact free.2
    next => cases decided

theorem resume {system : System} (tracks : Tracks records batch system) {held : Call} {frontier : ArtifactRef}
    {jobId : Digest} {existing : List (JobRecord × AuthoringRequest)} (holds : system.holder = some held)
    (listed : jobs records system.registry held.candidate = .ok existing)
    (decided : decide held.factory existing held.call frontier = .resume jobId) : Reserves system jobId := by
  have perm := jobs_perm tracks.named listed
  rw [decide] at decided
  split at decided
  next job old found =>
    split at decided
    next =>
      obtain rfl := Decision.resume.inj decided
      obtain ⟨⟨key, present⟩, read⟩ := mem_calls.mp (perm.mem_iff.mp (List.mem_of_find?_eq_some found))
      rw [tracks.named key job present]
      exact tracks.covered key job held.candidate old present (tracks.holder held holds).1 read
    next => cases decided
  next => split at decided <;> cases decided

theorem authored_of_isSpec {factory : Factory} {request : AuthoringRequest} {ref : ArtifactRef} {spec : JobSpec}
    (isSpec : IsSpec factory request ref spec) (stored : records ref = some request) (candidate : ArtifactRef)
    {job : JobRecord} (same : job.spec = spec) :
    authored records candidate job = if request.candidate = candidate then some request else none := by
  have authoring : isAuthoring spec = true := by
    simp [isAuthoring, isSpec.operation, isSpec.invocation, invocationOf, List.isPrefixOf_iff_prefix]
  rw [authored, same, if_pos authoring, isSpec.inputs]
  simp only [stored]

theorem enqueue {system : System} (tracks : Tracks records batch system) {held : Call}
    {request : AuthoringRequest} {at_check next : State} {ref : ArtifactRef} {spec : JobSpec}
    {data : Json.Members} (holds : system.holder = some held) (phase : held.phase = .checked request at_check)
    (stored : records ref = some request) (isSpec : IsSpec held.factory request ref spec)
    (decoded : JobSpec.codec.validate (member data "spec") = some spec)
    (event : State.Step sha256 system.registry data .enqueue next) :
    Tracks records batch { system with
      registry := next
      holder := some { held with phase := .queued (State.jobKey sha256 spec) }
      reservations := system.reservations ++
        [⟨State.jobKey sha256 spec, request, at_check, system.registry⟩] } := by
  obtain ⟨member, facts⟩ := tracks.holder held holds
  rw [PhaseHolds, phase] at facts
  obtain ⟨proposes, affordable⟩ := facts
  obtain ⟨fresh, jobs⟩ := event.enqueue_spec decoded
  have reads : ∀ candidate, authored records candidate (State.newJob (State.jobKey sha256 spec) spec) =
      if request.candidate = candidate then some request else none :=
    fun candidate => authored_of_isSpec isSpec stored candidate rfl
  have elsewhere : ∀ {key : Digest} {job : JobRecord}, system.registry.jobs.get? key = some job →
      next.jobs.get? key = some job := by
    intro key job found
    rw [jobs, Dict.get?_set_ne]
    · exact found
    · rintro rfl
      rw [fresh] at found
      cases found
  have kept : ∀ {jobId : Digest}, Reserves system jobId →
      ∃ entry ∈ system.reservations ++
        [⟨State.jobKey sha256 spec, request, at_check, system.registry⟩], entry.jobId = jobId :=
    fun ⟨entry, inside, same⟩ => ⟨entry, List.mem_append_left _ inside, same⟩
  refine ⟨tracks.named.step event, tracks.inputs.step tracks.named event, ?_, ?_, tracks.once, ?_, ?_, ?_, ?_⟩
  · intro key job candidate found at_key inside read
    change next.jobs.get? key = some job at at_key
    rw [jobs, Dict.get?_set] at at_key
    split at at_key
    next same => exact ⟨_, List.mem_append_right _ (List.mem_singleton_self _), same.symm⟩
    next => exact kept (tracks.covered key job candidate found at_key inside read)
  · intro entry inside
    rcases List.mem_append.mp inside with earlier | last
    · obtain ⟨job, found, limit⟩ := tracks.reserved entry earlier
      exact ⟨job, elsewhere found, limit⟩
    · obtain rfl := List.mem_singleton.mp last
      refine ⟨State.newJob (State.jobKey sha256 spec) spec, ?_, isSpec.attemptLimit⟩
      change next.jobs.get? _ = _
      rw [jobs, Dict.get?_set_self]
  · intro jobId inside
    obtain ⟨reserves, job, found, started⟩ := tracks.dispatched jobId inside
    exact ⟨kept reserves, job, elsewhere found, started⟩
  · intro candidate inside lane
    change next.jobs.values.countP _ ≤ 3
    rw [jobs, Dict.values_set_of_absent fresh, List.countP_append]
    have before := tracks.lanes candidate inside lane
    rw [laneCount] at before
    by_cases counted : inLane records candidate lane (State.newJob (State.jobKey sha256 spec) spec) = true
    · rw [inLane, reads candidate] at counted
      split at counted
      next same =>
        have inThis : request.lane = lane := by simpa using counted
        have room := proposes.room
        rw [same, inThis, laneCount] at room
        have last := List.countP_le_length (p := inLane records candidate lane)
          (l := [State.newJob (State.jobKey sha256 spec) spec])
        simp only [List.length_singleton] at last
        omega
      next => cases counted
    · simpa [counted] using before
  · intro entry inside
    rcases List.mem_append.mp inside with earlier | last
    · exact tracks.admitted entry earlier
    · obtain rfl := List.mem_singleton.mp last
      exact ⟨proposes.candidate ▸ member, proposes.completed, affordable⟩
  · intro _ same
    obtain rfl := Option.some.inj same
    exact ⟨member, _, List.mem_append_right _ (List.mem_singleton_self _), rfl⟩

theorem claim {system : System} (tracks : Tracks records batch system) {held : Call} {jobId : Digest}
    {claim : Claim} {data : Json.Members} {next : State} (holds : system.holder = some held)
    (phase : held.phase = .queued jobId)
    (decoded : Claim.codec.validate (member data "claim") = some claim) (own : claim.jobId = jobId)
    (event : State.Step sha256 system.registry data .claim next) :
    Tracks records batch { system with
      registry := next, holder := some { held with phase := .claimed jobId } } := by
  obtain ⟨_, facts⟩ := tracks.holder held holds
  rw [PhaseHolds, phase] at facts
  obtain ⟨job, found, below, claimed⟩ := event.claim_spec tracks.named decoded
  rw [own] at found claimed
  have undispatched : jobId ∉ system.dispatched := by
    intro inside
    obtain ⟨entry, reservation, same⟩ := facts
    obtain ⟨reserved, present, limit⟩ := tracks.reserved entry reservation
    rw [same] at present
    obtain rfl := Option.some.inj (found.symm.trans present)
    obtain ⟨_, again, at_id, started⟩ := tracks.dispatched jobId inside
    obtain rfl := Option.some.inj (found.symm.trans at_id)
    have none_yet : job.attempts.length = 0 := by omega
    exact started (List.length_eq_zero_iff.mp none_yet)
  have evolved := tracks.evolve (evolves_of_step tracks.named tracks.inputs event fun enqueued => by cases enqueued)
  exact evolved.move holds
    ⟨facts, ⟨_, claimed, by simp⟩, undispatched⟩

theorem step {system next : System} (tracks : Tracks records batch system)
    (step : SystemStep sha256 records batch system next) : Tracks records batch next := by
  cases step with
  | start factory candidate call free member =>
      refine tracks.hold fun _ same => ?_
      obtain rfl := Option.some.inj same
      exact ⟨member, trivial⟩
  | propose holds phase listed decided => 
      have proposes := propose tracks listed decided
      exact tracks.move holds ⟨proposes.candidate, proposes.call, proposes.completed, proposes.room⟩
  | resume holds phase listed decided => exact tracks.move holds (resume tracks holds listed decided)
  | @check held request holds phase checked =>
      obtain ⟨member, facts⟩ := tracks.holder held holds
      rw [PhaseHolds, phase] at facts
      have proposes : Proposes records system.registry held request := facts
      refine tracks.move holds
        ⟨⟨proposes.candidate, proposes.call, proposes.completed, proposes.room⟩, ?_⟩
      rw [proposes.candidate, proposes.call]
      exact affordable_of_checkBudget tracks.named tracks.inputs member checked
  | enqueue holds phase stored isSpec decoded event =>
      exact enqueue tracks holds phase stored isSpec decoded event
  | @enqueued held request at_check ref spec job holds phase stored isSpec known same =>
      obtain ⟨member, facts⟩ := tracks.holder held holds
      rw [PhaseHolds, phase] at facts
      refine tracks.move holds ?_
      refine tracks.covered _ job request.candidate request known (facts.1.candidate ▸ member) ?_
      rw [authored_of_isSpec isSpec stored _ same, if_pos rfl]
  | claim holds phase decoded own event => exact claim tracks holds phase decoded own event
  | @observe held jobId data registry holds phase event =>
      obtain ⟨_, facts⟩ := tracks.holder held holds
      rw [PhaseHolds, phase] at facts
      have evolves : Evolves records system.registry registry :=
        evolves_of_step tracks.named tracks.inputs event fun enqueued => by cases enqueued
      exact (tracks.evolve evolves).move holds
        ⟨facts.1, claimed_of_evolves evolves facts.2.1, facts.2.2⟩
  | @dispatch held jobId holds phase =>
      obtain ⟨_, facts⟩ := tracks.holder held holds
      rw [PhaseHolds, phase] at facts
      obtain ⟨reserves, claimed, undispatched⟩ := facts
      refine ⟨tracks.named, tracks.inputs, tracks.covered, tracks.reserved, ?_, ?_, tracks.lanes,
        tracks.admitted, fun _ none_held => by cases none_held⟩
      · exact List.nodup_append.mpr ⟨tracks.once, List.nodup_singleton _, fun one inside two last => by
          rintro rfl
          exact undispatched (List.mem_singleton.mp last ▸ inside)⟩
      · intro id inside
        rcases List.mem_append.mp inside with earlier | last
        · exact tracks.dispatched id earlier
        · obtain rfl := List.mem_singleton.mp last
          exact ⟨reserves, claimed⟩
  | stop => exact tracks.hold fun _ none_held => by cases none_held
  | settle quiet event => exact tracks.evolve (evolves_of_step tracks.named tracks.inputs event quiet)
  | recover jobId outcome => exact tracks

end Tracks

/-! ### Runs -/

/-- What holds of the attempts whenever calls were made, crashed and recovered in any order. -/
structure Sound (records : ArtifactRef → Option AuthoringRequest) (batch : AuthoringBatch) (system : System) :
    Prop where
  dispatched_once : system.dispatched.Nodup
  dispatched_reserved : ∀ jobId ∈ system.dispatched, ∃ entry ∈ system.reservations, entry.jobId = jobId
  attempts_reserved : ∀ candidate ∈ batch.candidates, ∀ call ∈ calls records system.registry candidate,
    ∃ entry ∈ system.reservations, entry.jobId = call.1.jobId
  three_attempts : ∀ candidate ∈ batch.candidates, ∀ lane,
    ((calls records system.registry candidate).filter fun call => call.2.lane = lane).length ≤ 3
  one_at_a_time : ∀ entry ∈ system.reservations,
    ∀ call ∈ calls records entry.atEnqueue entry.request.candidate, call.1.state = .completed
  affordable : ∀ entry ∈ system.reservations, entry.request.candidate ∈ batch.candidates ∧
    Affordable records batch entry.atCheck entry.request.candidate entry.request.call

theorem Tracks.sound {system : System} (tracks : Tracks records batch system) : Sound records batch system where
  dispatched_once := tracks.once
  dispatched_reserved jobId inside := (tracks.dispatched jobId inside).1
  attempts_reserved candidate member := by
    rintro ⟨job, request⟩ call
    obtain ⟨⟨key, present⟩, read⟩ := mem_calls.mp call
    rw [tracks.named key job present]
    exact tracks.covered key job candidate request present member read
  three_attempts candidate member lane := length_lane _ _ _ ▸ tracks.lanes candidate member lane
  one_at_a_time entry inside := (tracks.admitted entry inside).completed
  affordable entry inside := ⟨(tracks.admitted entry inside).member, (tracks.admitted entry inside).affordable⟩

theorem reservations_sound (sha256 : Bytes → Digest) (records : ArtifactRef → Option AuthoringRequest)
    (batch : AuthoringBatch) (limits : RegistryLimits) (events : List (Action × Json.Members))
    (registry : State) (system : System) (ran : (State.empty limits).run sha256 events = .ok registry)
    (fresh : ∀ candidate ∈ batch.candidates, calls records registry candidate = [])
    (reaches : Reaches sha256 records batch ⟨registry, none, [], []⟩ system) : Sound records batch system := by
  suffices tracks : Tracks records batch system from tracks.sound
  induction reaches with
  | refl =>
      obtain ⟨named, inputs⟩ := State.named_of_run ran
      refine ⟨named, inputs, ?_, by simp, List.nodup_nil, by simp, ?_, by simp, by simp⟩
      · intro key job candidate request present member read
        have call := mem_calls.mpr ⟨⟨key, present⟩, read⟩
        rw [fresh candidate member] at call
        cases call
      · intro candidate member lane
        rw [← length_lane, fresh candidate member]
        exact Nat.zero_le _
  | step _ step ih => exact ih.step step

end

namespace Sample

open State.Sample (source settings record digestOf)

def requestRef : ArtifactRef := { settings with sha256 := State.Sample.attemptId }

def call : AuthoringCall := ⟨[], ⟨1000, 500, 60, 30, 1048576⟩⟩

def request : AuthoringRequest := ⟨source, settings, call, stageLane call⟩

def records (ref : ArtifactRef) : Option AuthoringRequest := if ref = requestRef then some request else none

def caps : AuthoringCaps := ⟨4000, 2000, 240, 124, 3, 2097152, none⟩

def batch : AuthoringBatch := ⟨[source], caps, caps, by simp⟩

def factory : Factory := ⟨State.Sample.spec.implementation, settings⟩

def spec : JobSpec :=
  { State.Sample.spec with
    inputs := ⟨[source, requestRef], by decide⟩
    invocation := ⟨"m6-author:contract", by decide +kernel⟩
    attemptLimit := ⟨1, within_100⟩
    distinct := by
      refine ⟨by simp, ?_⟩
      simp only [List.nodup_cons, List.mem_singleton, List.not_mem_nil, not_false_eq_true, List.nodup_nil, and_true]
      decide +kernel }

def registration : Action × Json.Members :=
  (.register, [("artifacts", .arr [record source, record settings, record requestRef])])

def enqueueing : Json.Members := [("artifacts", .arr []), ("spec", JobSpec.codec.document spec)]

def isEmpty (outcome : Outcome (List (JobRecord × AuthoringRequest))) : Bool :=
  match outcome with
  | .ok [] => true
  | _ => false

/-- The first call of a candidate passes every check up to its enqueue. -/
def passes (registry : State) : Bool :=
  registry.jobs.size = 0 && isEmpty (jobs records registry source) &&
    (checkBudget records batch registry source call).toBool &&
    (registry.apply digestOf .enqueue enqueueing).toBool

theorem validated_spec : validated JobSpec.codec (member enqueueing "spec") = .ok spec :=
  State.Sample.validated_document JobSpec.codec spec

theorem eventRecords_registration : State.eventRecords registration.2 =
    .ok ([source, settings, requestRef].map fun ref => ⟨ref, Refs.empty⟩) :=
  State.Sample.eventRecords_records [source, settings, requestRef]

theorem ran : ∃ registry, (State.empty RegistryLimits.default).run digestOf [registration] = .ok registry ∧
    passes registry = true := by
  have registers : registration.1 = .register := rfl
  simp only [passes, State.run, foldAll, State.apply, registers, reduceCtorEq, if_false, State.applyEvent,
    State.applyInstalled, State.applyEnqueue, validated_spec, eventRecords_registration, State.Sample.ok_then]
  exact State.Sample.ran_of_holds (by decide +kernel)

end Sample

theorem reservations_sound_sample : ∃ registry system,
    Reaches State.Sample.digestOf Sample.records Sample.batch ⟨registry, none, [], []⟩ system ∧
    system.reservations.length = 1 ∧ Sound Sample.records Sample.batch system := by
  obtain ⟨registry, ran, passes⟩ := Sample.ran
  simp only [Sample.passes, Bool.and_eq_true, decide_eq_true_eq] at passes
  obtain ⟨⟨⟨none_yet, empty⟩, checked⟩, enqueued⟩ := passes
  have listed : jobs Sample.records registry State.Sample.source = .ok [] := by
    unfold Sample.isEmpty at empty
    split at empty
    next found => exact found
    next => cases empty
  obtain ⟨_, checked⟩ := exists_ok checked
  obtain ⟨next, enqueued⟩ := exists_ok enqueued
  let held : Call := ⟨Sample.factory, State.Sample.source, Sample.call, .started⟩
  have decided : decide Sample.factory [] Sample.call State.Sample.settings = .propose := by decide
  have isSpec : IsSpec Sample.factory Sample.request Sample.requestRef Sample.spec :=
    ⟨rfl, rfl, rfl, rfl, by decide +kernel, rfl⟩
  have decoded : JobSpec.codec.validate (member Sample.enqueueing "spec") = some Sample.spec := by
    simp [Sample.enqueueing, member, List.lookup_cons, Codec.validate_document]
  have reaches : Reaches State.Sample.digestOf Sample.records Sample.batch ⟨registry, none, [], []⟩ _ :=
    .step (.step (.step (.step .refl
      (.start Sample.factory State.Sample.source Sample.call rfl (by simp [Sample.batch])))
      (@SystemStep.propose _ _ _ _ held _ _ rfl rfl listed decided))
      (.check rfl rfl checked))
      (.enqueue rfl rfl (if_pos rfl) isSpec decoded (State.apply_step enqueued))
  refine ⟨registry, _, reaches, rfl, ?_⟩
  refine reservations_sound State.Sample.digestOf Sample.records Sample.batch RegistryLimits.default
    [Sample.registration] registry _ ran ?_ reaches
  intro candidate _
  have none_listed : registry.jobs.values = [] :=
    List.length_eq_zero_iff.mp (by rw [Dict.length_values, none_yet])
  simp [calls, none_listed]

end Authoring

end FeatureRl
