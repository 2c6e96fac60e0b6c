import FeatureRl.Pipeline.GradeRuns

/-! What one step of a grade call does. -/

namespace FeatureRl

open Checked
open Artifacts (ArtifactStore Hashing)

namespace GradeJobs

variable {setting : Setting} {world next : World}

/-- What a call knows between two of its steps. -/
def PhaseHolds (setting : Setting) (world : World) : Phase → Prop
  | .graded _ result | .recorded _ result | .costed _ result => Result setting world result
  | .stored _ result ref => Result setting world result ∧ ref.kind = originalKind ∧
      Holds setting world.store ref originalKind (OperationResult.codec.dump result)
  | .checked _ _ result costs | .observed _ result costs _ =>
      Result setting world result ∧ costs = setting.actualCosts result.costs
  | .frozen _ _ result costs selected =>
      selected.kind = frozenKind ∧ Result setting world result ∧ costs = setting.actualCosts result.costs
  | .failing _ pending | .noted _ pending => Pending setting world pending
  | .kept claim pending ref => Pending setting world pending ∧ ref.kind = pendingKind ∧
      KeptAs setting world.store claim ref pending
  | .pending _ ref => IsPending setting world ref
  | _ => True

theorem PhaseHolds.grow {phase : Phase} (holds : PhaseHolds setting world phase) (grows : Grows world next) :
    PhaseHolds setting next phase := by
  cases phase with
  | graded | recorded | costed => exact Result.grow holds grows
  | stored => exact ⟨holds.1.grow grows, holds.2.1, holds.2.2.grow grows.store⟩
  | checked | observed => exact ⟨holds.1.grow grows, holds.2⟩
  | frozen => exact ⟨holds.1, holds.2.1.grow grows, holds.2.2⟩
  | failing | noted => exact Pending.grow holds grows
  | kept => exact ⟨holds.1.grow grows, holds.2.1, holds.2.2.grow grows.store⟩
  | pending => exact IsPending.grow holds grows
  | _ => trivial

/-- The dispatches a call may still make. -/
def Phase.charge (phase : Phase) : Nat := if phase.mayDispatch then 1 else 0

def Progress.charge : Progress → Nat
  | .goes phase => phase.charge
  | _ => 0

def Progress.Holds (setting : Setting) (world : World) : Progress → Prop
  | .goes phase => PhaseHolds setting world phase
  | .returns result => Agrees setting world result
  | .raises kept => ∀ phase ∈ kept, phase.mayDispatch = false ∧ PhaseHolds setting world phase

/-- What one step of a call does. -/
structure Steps (setting : Setting) (world : World) (phase : Phase) (next : World) (progress : Progress) :
    Prop where
  core : Core setting next
  grows : Grows world next
  holds : progress.Holds setting next
  charged : progress.charge + next.dispatched.length + world.claims.length ≤
    phase.charge + world.dispatched.length + next.claims.length

/-- A step that only reads. -/
theorem Steps.reads (core : Core setting world) {phase : Phase} {progress : Progress}
    (holds : progress.Holds setting world) (charged : progress.charge ≤ phase.charge) :
    Steps setting world phase world progress :=
  ⟨core, .refl world, holds, by omega⟩

/-- A registry event of a call. -/
theorem Steps.event {registry : State} (core : Core setting { world with registry := registry }) {phase : Phase}
    {progress : Progress} (holds : progress.Holds setting { world with registry := registry })
    (charged : progress.charge ≤ phase.charge) :
    Steps setting world phase { world with registry := registry } progress :=
  ⟨core, .registry world registry, holds, by simpa using charged⟩

/-- A write to the store. -/
theorem Steps.wrote (core : Core setting world) {store : ArtifactStore} (larger : world.store.Extends store)
    {phase : Phase} {progress : Progress} (holds : progress.Holds setting { world with store := store })
    (charged : progress.charge ≤ phase.charge) :
    Steps setting world phase { world with store := store } progress := by
  have grows : Grows world { world with store := store } := ⟨larger, fun _ same => same⟩
  refine ⟨core.change rfl rfl grows core.dispatched ?_, grows, holds, by simpa using charged⟩
  exact fun entry member => (core.accepted entry member).grow larger

/-- The dispatch of the grader, with what it returned or without. -/
theorem Steps.dispatched (core : Core setting world) {claim : Claim} {outcome : Option GradePublicationFailed}
    {progress : Progress} (free : world.dispatched = [])
    (holds : progress.Holds setting
      { world with dispatched := world.dispatched ++ [claim.attemptId], outcome := outcome })
    (charged : progress.charge = 0) :
    Steps setting world (.intended claim)
      { world with dispatched := world.dispatched ++ [claim.attemptId], outcome := outcome } progress := by
  have grows : Grows world
      { world with dispatched := world.dispatched ++ [claim.attemptId], outcome := outcome } :=
    ⟨.refl _, fun graded same => absurd free (core.dispatched graded same)⟩
  refine ⟨core.change rfl rfl grows (fun _ _ => by simp) core.accepted, grows, holds, ?_⟩
  simp only [charged, Phase.charge, Phase.mayDispatch, List.length_append, List.length_singleton, ↓reduceIte]
  omega

/-! ### Observations -/

theorem request_ne (setting : Setting) :
    setting.request.kind ≠ originalKind ∧ setting.request.kind ≠ pendingKind := by
  constructor
  · intro same
    have names := congrArg Subtype.val same
    rw [setting.kind] at names
    exact absurd names (by decide)
  · intro same
    have names := congrArg Subtype.val same
    rw [setting.kind] at names
    exact absurd names (by decide)

/-- Only the request and other unrelated artifacts are observed. -/
theorem Core.observes_other (core : Core setting world) {claim : Claim} {ref : ArtifactRef}
    {costs : List CostRecord} {registry : State}
    (observes : Observes setting world.registry claim [ref] costs registry)
    (other : ref.kind ≠ originalKind ∧ ref.kind ≠ pendingKind) (accounts : Accounts setting world costs) :
    Core setting { world with registry := registry } := by
  refine core.observes observes ?_ ?_ accounts
  · intro observed member kind
    obtain rfl := List.mem_singleton.mp member
    exact absurd kind other.1
  · intro observed member kind
    obtain rfl := List.mem_singleton.mp member
    exact absurd kind other.2

theorem Result.accounts {result : OperationResult} (holds : Result setting world result) :
    Accounts setting world (setting.actualCosts result.costs) := by
  obtain ⟨graded, outcome, final⟩ := holds
  intro other same
  obtain rfl := Option.some.inj (outcome.symm.trans same)
  rw [costs_of_finalResult final]

theorem Pending.accounts {pending : GradePublicationFailed} (holds : Pending setting world pending) :
    Accounts setting world (setting.actualCosts pending.costs) := by
  obtain ⟨graded, outcome, same_grade⟩ := holds
  intro other same
  obtain rfl := Option.some.inj (outcome.symm.trans same)
  rw [same_grade.costs]

/-- A completed result agrees with what the grader returned. -/
theorem IsCompleted.agrees {original result : OperationResult} {selected : ArtifactRef} {costs : List CostRecord}
    (is : IsCompleted original selected costs result) (holds : Result setting world original)
    (accounts : costs = setting.actualCosts original.costs) : Agrees setting world result := by
  obtain ⟨graded, outcome, final⟩ := holds
  have artifacts := (resultOf_eq_some final).2.2
  refine ⟨graded, original, outcome, final, is.disposition, ?_, ?_⟩
  · rw [is.artifacts, artifacts]
    rfl
  · rw [is.same_costs, accounts, costs_of_finalResult final]

/-- What a checked publication completes is what the grader returned. -/
theorem Core.original (core : Core setting world) {claim : Claim} {job : JobRecord} {item : ObservationRecord}
    {ref : ArtifactRef} {raw : Bytes} {result : OperationResult} {cap : Nat}
    (valid : Validated setting world.registry claim job) (snapshot : Snapshot world.registry claim item)
    (linked : ref ∈ item.observation.receipts.val)
    (read : readBytes setting.hashing world.store ref cap originalKind = .ok raw)
    (decoded : OperationResult.codec.validateJson raw = some result) :
    Result setting world result ∧ item.observation.costs = setting.actualCosts result.costs := by
  obtain ⟨⟨stored, holds, stands⟩, accounts⟩ :=
    (core.good valid snapshot).originals ref linked (readBytes_kind read)
  rw [stands _ (.refl _) _ _ read, Codec.validateJson_dump] at decoded
  obtain rfl := Option.some.inj decoded
  obtain ⟨graded, outcome, final⟩ := holds
  refine ⟨⟨graded, outcome, final⟩, ?_⟩
  rw [accounts graded outcome, costs_of_finalResult final]

/-- A retained publication that is read leads to what the grader returned. -/
theorem IsPending.read {ref : ArtifactRef} (pending : IsPending setting world ref) {claim : Claim}
    {grade : GradePublicationFailed}
    (reconstructed : recoverPending setting.hashing world.store claim ref = .ok (setting.request, grade)) :
    Pending setting world grade := by
  obtain ⟨kept, owner, holds, stored⟩ := pending
  obtain ⟨_, same, _⟩ := (stored _ (.refl _) claim _).mp reconstructed
  obtain rfl := (Prod.mk.inj same).2
  exact holds

theorem Pending.retried {pending : GradePublicationFailed} (holds : Pending setting world pending) {stored : Nat}
    {receipt : Bool} {result : OperationResult}
    (published : retryPublication setting.hashing setting.graderRevision pending stored receipt =
      .ok (some result)) : Result setting world result := by
  obtain ⟨graded, outcome, same⟩ := holds
  unfold retryPublication at published
  split at published
  next => exact ⟨graded, outcome, same.final ▸ Except.ok.inj published⟩
  next => cases published

theorem Pending.newer {pending next : GradePublicationFailed} (holds : Pending setting world pending)
    {stored : Nat} {receipt : Bool}
    (remains : retryPublication setting.hashing setting.graderRevision pending stored receipt = .error next) :
    Pending setting world next := by
  obtain ⟨graded, outcome, same⟩ := holds
  unfold retryPublication at remains
  split at remains
  next => cases remains
  next =>
    obtain rfl := Except.error.inj remains
    exact ⟨graded, outcome, by rw [finalResult_newer, same.final], same.costs⟩

/-! ### Steps -/

theorem steps_of_callStep (core : Core setting world) {phase : Phase} {progress : Progress}
    (holds : PhaseHolds setting world phase) (free : phase.mayDispatch = true → world.dispatched = [])
    (step : CallStep setting world phase next progress) : Steps setting world phase next progress := by
  cases step with
  | enqueue decoded event => exact .event (core.enqueue decoded event) trivial (Nat.zero_le _)
  | enqueued found queued => exact .reads core trivial (Nat.zero_le _)
  | enqueuedCompleted found completed held => exact .reads core (core.held found completed held) (Nat.zero_le _)
  | claim decoded own unused event =>
      refine ⟨core.claim decoded own unused event, ⟨.refl _, fun _ same => same⟩, trivial, ?_⟩
      simp only [Progress.charge, Phase.charge, Phase.mayDispatch, List.length_append, List.length_singleton,
        ↓reduceIte]
      omega
  | intend observes =>
      refine .event (core.observes_other observes (request_ne setting) ?_) trivial (Nat.le_refl 1)
      intro graded outcome
      exact absurd (free rfl) (core.dispatched graded outcome)
  | dispatchPublished published final => exact .dispatched core (free rfl) ⟨_, rfl, final⟩ rfl
  | dispatchPending => exact .dispatched core (free rfl) ⟨_, rfl, rfl, rfl⟩ rfl
  | dispatchLost =>
      refine .dispatched core (free rfl) ?_ rfl
      intro phase member
      obtain rfl := List.mem_singleton.mp member
      exact ⟨rfl, trivial⟩
  | note observes =>
      have grown := core.observes_other observes (request_ne setting) (Pending.accounts holds)
      exact .event grown (Pending.grow holds (.registry world _)) (Nat.zero_le _)
  | keep retained =>
      obtain ⟨larger, kind, kept⟩ := retainPending_kept retained
      exact .wrote core larger ⟨Pending.grow holds ⟨larger, fun _ same => same⟩, kind, kept⟩ (Nat.zero_le _)
  | @link claim grade ref registry observes =>
      obtain ⟨pending, kind, kept⟩ := holds
      have observed : Core setting { world with registry := registry } := by
        refine core.observes observes ?_ ?_ pending.accounts
        · intro other member is_original
          obtain rfl := List.mem_singleton.mp member
          rw [kind] at is_original
          exact absurd is_original (by decide)
        · intro other member _
          obtain rfl := List.mem_singleton.mp member
          exact ⟨grade, claim, pending, kept⟩
      have grows : Grows { world with registry := registry }
          { world with registry := registry, accepted := world.accepted ++ [⟨claim, ref, grade⟩] } :=
        ⟨.refl _, fun _ same => same⟩
      refine ⟨observed.change rfl rfl grows observed.dispatched ?_, ⟨.refl _, fun _ same => same⟩, ?_, ?_⟩
      · intro entry member
        rcases List.mem_append.mp member with earlier | added
        · exact core.accepted entry earlier
        · obtain rfl := List.mem_singleton.mp added
          exact kept
      · intro phase member
        obtain rfl := List.mem_singleton.mp member
        exact ⟨rfl, trivial⟩
      · simp [Progress.charge]
  | recordCompleted valid completed held =>
      exact .reads core (core.validated_held valid completed held) (Nat.zero_le _)
  | record valid pending verifies snapshot selected bounded => exact .reads core holds (Nat.zero_le _)
  | cost observes =>
      have grown := core.observes_other observes (request_ne setting) (Result.accounts holds)
      exact .event grown (Result.grow holds (.registry world _)) (Nat.zero_le _)
  | original put =>
      obtain ⟨larger, kind, stored⟩ := putRecord_holds (by decide) put
      exact .wrote core larger ⟨Result.grow holds ⟨larger, fun _ same => same⟩, kind, stored⟩ (Nat.zero_le _)
  | bind observes =>
      obtain ⟨result, kind, stored⟩ := holds
      refine .event (core.observes observes ?_ ?_ result.accounts) trivial (Nat.zero_le _)
      · intro other member _
        obtain rfl := List.mem_singleton.mp member
        exact ⟨_, result, stored⟩
      · intro other member is_pending
        obtain rfl := List.mem_singleton.mp member
        rw [kind] at is_pending
        exact absurd is_pending (by decide)
  | @recordFails phase claim result during =>
      refine .reads core ?_ (Nat.zero_le _)
      intro kept member
      obtain rfl := List.mem_singleton.mp member
      rcases during with rfl | rfl | ⟨ref, rfl⟩
      · exact ⟨rfl, holds⟩
      · exact ⟨rfl, holds⟩
      · exact ⟨rfl, holds.1⟩
  | publishCompleted valid completed held =>
      exact .reads core (core.validated_held valid completed held) (Nat.zero_le _)
  | publish bounded valid pending snapshot accounted linked read decoded canonical verifies =>
      obtain ⟨result, costs⟩ := core.original valid snapshot linked read decoded
      exact .reads core ⟨result, accounted.symm.trans costs⟩ (Nat.zero_le _)
  | freeze put =>
      obtain ⟨larger, kind, _⟩ := @putRecord_holds setting _ _ _ _ _ (by decide) put
      exact .wrote core larger ⟨kind, holds.1.grow ⟨larger, fun _ same => same⟩, holds.2⟩ (Nat.zero_le _)
  | @observe claim ref selected result costs registry observes =>
      obtain ⟨kind, graded, accounts⟩ := holds
      have other : selected.kind ≠ originalKind ∧ selected.kind ≠ pendingKind := by
        rw [kind]
        decide
      refine .event (core.observes_other observes other (accounts ▸ graded.accounts)) ?_ (Nat.zero_le _)
      exact ⟨graded.grow (.registry world _), accounts⟩
  | publishFails during =>
      refine .reads core ?_ (Nat.zero_le _)
      intro kept member
      obtain rfl := List.mem_singleton.mp member
      exact ⟨rfl, trivial⟩
  | @complete claim original result costs selected data registry decoded own read is event =>
      obtain ⟨graded, accounts⟩ := holds
      have agrees := is.agrees graded accounts
      refine .event (core.event event (by rintro ⟨⟩) (by rintro ⟨⟩) (by rintro ⟨⟩) ?_)
        (agrees.grow (.registry world _)) (Nat.zero_le _)
      intro _ other another _ decoded_result _
      obtain rfl := Option.some.inj (read.symm.trans decoded_result)
      exact agrees
  | completed found completed held => exact .reads core (core.held found completed held) (Nat.zero_le _)
  | recovered valid completed held =>
      exact .reads core (core.validated_held valid completed held) (Nat.zero_le _)
  | recoverFrozen valid pending snapshot last read decoded own => exact .reads core trivial (Nat.zero_le _)
  | recoverOriginal valid pending snapshot unfrozen last => exact .reads core trivial (Nat.zero_le _)
  | recoverPending valid pending snapshot unfrozen last =>
      obtain ⟨linked, kind⟩ := List.mem_filter.mp (List.mem_of_getLast? last)
      exact .reads core ((core.good valid snapshot).pendings _ linked (by simpa using kind)) (Nat.zero_le _)
  | retried reconstructed snapshot accounted published =>
      exact .reads core ((IsPending.read holds reconstructed).retried published) (Nat.zero_le _)
  | retriedPending reconstructed snapshot accounted remains =>
      exact .reads core ((IsPending.read holds reconstructed).newer remains) (Nat.zero_le _)

end GradeJobs

end FeatureRl
