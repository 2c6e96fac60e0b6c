import FeatureRl.Registry.Graph

/-!
Quarantine. The affected set of a root is the least set closed under artifact dependencies and
the dataflow of completed jobs, and no job outside the historical-audit scope that touches it
moves on while a notice on the root is active.
-/

namespace FeatureRl

open Checked

namespace State

variable {sha256 : Bytes → Digest} {state next : State} {data : Json.Members}

/-! ### The affected set -/

theorem meets_iff {refs : List ArtifactRef} {seen : Finset Digest} :
    meets refs seen = true ↔ ∃ ref ∈ refs, ref.sha256 ∈ seen := by
  simp [meets, List.any_eq_true]

/-- Sets of artifacts and jobs that dependencies and completed jobs do not leave. -/
structure Closed (state : State) (affected : Affected) : Prop where
  artifacts : ∀ key record, state.artifacts.get? key = some record →
    (∃ ref ∈ record.dependencies.val, ref.sha256 ∈ affected.1) → key ∈ affected.1
  jobs : ∀ key job, state.jobs.get? key = some job →
    (∃ ref ∈ jobDependencies job, ref.sha256 ∈ affected.1) → key ∈ affected.2
  results : ∀ key job, state.jobs.get? key = some job →
    (∃ ref ∈ jobDependencies job, ref.sha256 ∈ affected.1) →
    ∀ ref ∈ jobArtifacts job, ref.sha256 ∈ affected.1

/-- The closed sets that contain a root. -/
def Covers (state : State) (root : ArtifactRef) : Set Affected :=
  {affected | root.sha256 ∈ affected.1 ∧ Closed state affected}

theorem le_spreadArtifact (seen : Finset Digest) (entry : Digest × ArtifactRecord) :
    seen ≤ spreadArtifact seen entry := by
  unfold spreadArtifact
  split
  · exact Finset.subset_insert _ _
  · exact le_rfl

theorem le_spreadJob (affected : Affected) (entry : Digest × JobRecord) :
    affected ≤ spreadJob affected entry := by
  unfold spreadJob
  split
  · exact ⟨Finset.subset_union_left, Finset.subset_insert _ _⟩
  · exact le_rfl

theorem le_spread (affected : Affected) : affected ≤ state.spread affected := by
  have artifacts := Fixpoint.le_foldl le_spreadArtifact state.artifacts.entries affected.1
  have both : affected ≤
      (state.artifacts.entries.foldl spreadArtifact affected.1, affected.2) := ⟨artifacts, le_rfl⟩
  exact both.trans (Fixpoint.le_foldl le_spreadJob state.jobs.entries _)

theorem closed_of_spread_eq {affected : Affected} (fixed : state.spread affected = affected) :
    Closed state affected := by
  have first : state.artifacts.entries.foldl spreadArtifact affected.1 = affected.1 := by
    refine le_antisymm ?_ (Fixpoint.le_foldl le_spreadArtifact _ _)
    have after := Fixpoint.le_foldl le_spreadJob state.jobs.entries
      (state.artifacts.entries.foldl spreadArtifact affected.1, affected.2)
    have whole : state.jobs.entries.foldl spreadJob
        (state.artifacts.entries.foldl spreadArtifact affected.1, affected.2) = affected := fixed
    rw [whole] at after
    exact after.1
  have second : state.jobs.entries.foldl spreadJob affected = affected := by
    rw [spread, first] at fixed
    exact fixed
  have job_step : ∀ {key job}, state.jobs.get? key = some job →
      spreadJob affected (key, job) = affected := fun found =>
    Fixpoint.step_of_foldl_eq le_spreadJob second (Dict.mem_entries.mpr found)
  constructor
  · intro key record found touches
    have step := Fixpoint.step_of_foldl_eq le_spreadArtifact first (Dict.mem_entries.mpr found)
    rw [spreadArtifact, if_pos (meets_iff.mpr touches)] at step
    exact step ▸ Finset.mem_insert_self _ _
  · intro key job found touches
    have step := congrArg Prod.snd (job_step found)
    rw [spreadJob, if_pos (meets_iff.mpr touches)] at step
    exact step ▸ Finset.mem_insert_self _ _
  · intro key job found touches ref member
    have step := congrArg Prod.fst (job_step found)
    rw [spreadJob, if_pos (meets_iff.mpr touches)] at step
    rw [← step]
    exact Finset.mem_union_right _ (List.mem_toFinset.mpr (List.mem_map_of_mem member))

theorem spread_le {affected top : Affected} (closed : Closed state top) (below : affected ≤ top) :
    state.spread affected ≤ top := by
  refine Fixpoint.foldl_le ?_ ⟨Fixpoint.foldl_le ?_ below.1, below.2⟩
  · rintro ⟨key, job⟩ member affected under
    have found := Dict.mem_entries.mp member
    unfold spreadJob
    split
    next touches =>
      obtain ⟨ref, listed, inside⟩ := meets_iff.mp touches
      have reaches : ∃ ref ∈ jobDependencies job, ref.sha256 ∈ top.1 :=
        ⟨ref, listed, under.1 inside⟩
      refine ⟨Finset.union_subset under.1 ?_, Finset.insert_subset
        (closed.jobs key job found reaches) under.2⟩
      intro digest produced
      obtain ⟨product, member, rfl⟩ := List.mem_map.mp (List.mem_toFinset.mp produced)
      exact closed.results key job found reaches product member
    next => exact under
  · rintro ⟨key, record⟩ member seen under
    unfold spreadArtifact
    split
    next touches =>
      obtain ⟨ref, listed, inside⟩ := meets_iff.mp touches
      exact Finset.insert_subset (closed.artifacts key record (Dict.mem_entries.mp member)
        ⟨ref, listed, under inside⟩) under
    next => exact under

theorem affectedSize_strictMono : StrictMono affectedSize := by
  intro small large less
  rcases Prod.lt_iff.mp less with ⟨artifacts, jobs⟩ | ⟨artifacts, jobs⟩
  · exact Nat.add_lt_add_of_lt_of_le (Finset.card_lt_card artifacts) (Finset.card_le_card jobs)
  · exact Nat.add_lt_add_of_le_of_lt (Finset.card_le_card artifacts) (Finset.card_lt_card jobs)

/-- Everything that can be affected: indexed artifacts, results and jobs. -/
def everything (state : State) (root : ArtifactRef) : Affected :=
  (insert root.sha256 (state.artifacts.keys.toFinset ∪
    ((state.jobs.values.flatMap jobArtifacts).map ArtifactRef.sha256).toFinset),
    state.jobs.keys.toFinset)

theorem closed_everything (root : ArtifactRef) : Closed state (state.everything root) where
  artifacts key record found _ := by
    simp only [everything, Finset.mem_insert, Finset.mem_union, List.mem_toFinset]
    exact .inr (.inl (Dict.mem_keys.mpr ⟨record, found⟩))
  jobs key job found _ := List.mem_toFinset.mpr (Dict.mem_keys.mpr ⟨job, found⟩)
  results key job found _ ref member := by
    simp only [everything, Finset.mem_insert, Finset.mem_union, List.mem_toFinset, List.mem_map,
      List.mem_flatMap]
    exact .inr (.inr ⟨ref, ⟨job, Dict.mem_values.mpr ⟨key, found⟩, member⟩, rfl⟩)

theorem everything_size (root : ArtifactRef) :
    affectedSize (state.everything root) ≤ state.affectedRounds := by
  have artifacts := List.toFinset_card_le state.artifacts.keys
  have jobs := List.toFinset_card_le state.jobs.keys
  have results := List.toFinset_card_le
    ((state.jobs.values.flatMap jobArtifacts).map ArtifactRef.sha256)
  have united := Finset.card_union_le state.artifacts.keys.toFinset
    ((state.jobs.values.flatMap jobArtifacts).map ArtifactRef.sha256).toFinset
  have inserted := Finset.card_insert_le root.sha256 (state.artifacts.keys.toFinset ∪
    ((state.jobs.values.flatMap jobArtifacts).map ArtifactRef.sha256).toFinset)
  rw [Dict.length_keys] at artifacts jobs
  rw [List.length_map, List.length_flatMap] at results
  simp only [affectedSize, everything, affectedRounds]
  omega

/-- The computation ends with the least closed set that contains the root. -/
theorem affected_isLeast {root : ArtifactRef} (known : state.registered root = true) :
    ∃ affected, state.affected root = .ok affected ∧ IsLeast (Covers state root) affected := by
  have start : (({root.sha256}, ∅) : Affected) ≤ state.everything root :=
    ⟨by simp [everything], by simp⟩
  have enough : affectedSize (state.everything root) <
      state.affectedRounds + affectedSize ({root.sha256}, ∅) := by
    have bound : affectedSize (state.everything root) ≤ state.affectedRounds :=
      everything_size root
    simp only [affectedSize, Finset.card_singleton, Finset.card_empty] at bound ⊢
    omega
  obtain ⟨affected, found⟩ := Fixpoint.untilStable_terminates le_spread affectedSize_strictMono
    (fun _ => spread_le (closed_everything root)) start enough
  refine ⟨affected, ?_, ?_, ?_⟩
  · rw [State.affected, bind_eq_ok]
    exact ⟨(), refuse_eq_ok.mpr (by simp [known]), by rw [found]; rfl⟩
  · exact ⟨(Fixpoint.le_untilStable le_spread found).1 (Finset.mem_singleton_self _),
      closed_of_spread_eq (Fixpoint.untilStable_fixed le_spread affectedSize_strictMono found)⟩
  · rintro top ⟨inside, closed⟩
    exact Fixpoint.untilStable_le (fun _ => spread_le closed)
      ⟨Finset.singleton_subset_iff.mpr inside, Finset.empty_subset _⟩ found

theorem affected_eq_ok {root : ArtifactRef} {affected : Affected} :
    state.affected root = .ok affected ↔
      state.registered root = true ∧ IsLeast (Covers state root) affected := by
  constructor
  · intro found
    have known : state.registered root = true := by
      rw [State.affected, bind_eq_ok] at found
      obtain ⟨_, checked, _⟩ := found
      simpa using refuse_eq_ok.mp checked
    obtain ⟨least, same, isLeast⟩ := affected_isLeast known
    obtain rfl := Except.ok.inj (found.symm.trans same)
    exact ⟨known, isLeast⟩
  · rintro ⟨known, isLeast⟩
    obtain ⟨least, same, again⟩ := affected_isLeast known
    rw [same, again.unique isLeast]

/-! ### Usable references -/

/-- A reference that no active notice outside the ignored roots affects. -/
def Unaffected (state : State) (ignored : Finset Digest) (ref : ArtifactRef) : Prop :=
  ∀ notice ∈ state.notices.values, notice.active = true → notice.root.sha256 ∉ ignored →
    ∃ affected, state.affected notice.root = .ok affected ∧ ref.sha256 ∉ affected.1

theorem usable_eq_ok {refs : List ArtifactRef} {ignored : Finset Digest} :
    state.usable refs ignored = .ok () ↔
      ∀ ref ∈ refs, state.registered ref = true ∧ Unaffected state ignored ref := by
  simp only [usable, checkAll_eq_ok, bind_eq_ok, refuse_eq_ok, Bool.not_eq_false, Unaffected]
  refine forall₂_congr fun ref _ => ?_
  have under : ∀ notice, state.usableUnder ignored ref notice = .ok () ↔
      (notice.active = true → notice.root.sha256 ∉ ignored →
        ∃ affected, state.affected notice.root = .ok affected ∧ ref.sha256 ∉ affected.1) := by
    intro notice
    unfold usableUnder
    split
    next applies =>
      simp only [bind_eq_ok, refuse_eq_ok, applies.1, applies.2, not_false_eq_true, forall_const]
    next spared => exact ⟨fun _ active outside => absurd ⟨active, outside⟩ spared, fun _ => rfl⟩
  simp only [under]
  constructor
  · rintro ⟨-, known, free⟩
    exact ⟨known, free⟩
  · rintro ⟨known, free⟩
    exact ⟨(), known, free⟩

theorem jobUsable_eq_ok {spec : JobSpec} {refs : List ArtifactRef} :
    state.jobUsable spec refs = .ok () ↔
      ∃ ignored, Historical.ignoredRoots state spec = .ok ignored ∧
        ∀ ref ∈ refs, state.registered ref = true ∧ Unaffected state ignored ref := by
  simp only [jobUsable, bind_eq_ok, usable_eq_ok]

/-- A job that no historical-audit policy governs. -/
def OutsideScope (spec : JobSpec) : Prop :=
  spec.operation ≠ .audit ∨ spec.configuration.kind.val ≠ Historical.policy

theorem ignoredRoots_outside {spec : JobSpec} (outside : OutsideScope spec) :
    Historical.ignoredRoots state spec = .ok ∅ := by
  unfold Historical.ignoredRoots
  exact if_pos outside

/-! ### Jobs that move on -/

/-- The job that an event enqueues, claims, retries or completes, with the references it uses:
inputs, configuration and, on completion, outputs and result evidence. -/
def Uses (state : State) (action : Action) (data : Json.Members) (spec : JobSpec)
    (refs : List ArtifactRef) : Prop :=
  match action with
  | .enqueue => JobSpec.codec.validate (member data "spec") = some spec ∧ refs = jobInputs spec
  | .claim => ∃ claim job, Claim.codec.validate (member data "claim") = some claim ∧
      state.jobs.get? claim.jobId = some job ∧ spec = job.spec ∧ refs = jobInputs spec
  | .retry => ∃ key job, member data "job_id" = .str (Subtype.val key) ∧
      state.jobs.get? key = some job ∧ spec = job.spec ∧ refs = jobInputs spec
  | .complete => ∃ claim job result, Claim.codec.validate (member data "claim") = some claim ∧
      state.jobs.get? claim.jobId = some job ∧
      OperationResult.codec.validate (member data "result") = some result ∧
      spec = job.spec ∧ refs = jobInputs spec ++ result.artifacts ++ result.evidenceArtifacts
  | _ => False

theorem Change.usable {action : Action} {spec : JobSpec} {refs : List ArtifactRef}
    (change : Change sha256 state data action next) (uses : Uses state action data spec refs) :
    state.jobUsable spec refs = .ok () := by
  cases change with
  | enqueue guard =>
      obtain ⟨decoded, rfl⟩ := uses
      rw [guard.decoded] at decoded
      exact Option.some.inj decoded ▸ guard.usable
  | claim guard =>
      obtain ⟨claim, job, decoded, at_job, rfl, rfl⟩ := uses
      rw [guard.decoded] at decoded
      obtain rfl := Option.some.inj decoded
      rw [guard.job_at] at at_job
      exact Option.some.inj at_job ▸ guard.usable
  | retry guard =>
      obtain ⟨key, job, named, at_job, rfl, rfl⟩ := uses
      rw [guard.named] at named
      obtain rfl := Subtype.ext (Json.str.inj named)
      rw [guard.job_at] at at_job
      exact Option.some.inj at_job ▸ guard.usable
  | complete guard =>
      obtain ⟨claim, job, result, decoded, at_job, read, rfl, rfl⟩ := uses
      rw [guard.decoded] at decoded
      obtain rfl := Option.some.inj decoded
      rw [guard.owns.job_at] at at_job
      obtain rfl := Option.some.inj at_job
      rw [guard.read] at read
      exact Option.some.inj read ▸ guard.usable
  | _ => exact uses.elim

/-- Sets that are closed after more artifacts were indexed were closed before. -/
theorem Closed.of_indexed {merged : Dict Digest ArtifactRecord} {affected : Affected}
    (closed : Closed { state with artifacts := merged } affected)
    (kept : ∀ key record, state.artifacts.get? key = some record →
      merged.get? key = some record) : Closed state affected :=
  ⟨fun key record found => closed.artifacts key record (kept key record found), closed.jobs,
    closed.results⟩

/-- The artifacts of a closed set stay closed when one job changes, unless the job touches them
and gains results. -/
theorem covers_setJob {root : ArtifactRef} {affected : Affected}
    (covers : affected ∈ Covers state root) {key : Digest} {changed : JobRecord}
    (attempts : Dict Digest AttemptRecord)
    (harmless : (∃ ref ∈ jobDependencies changed, ref.sha256 ∈ affected.1) →
      ∀ ref ∈ jobArtifacts changed, ref.sha256 ∈ affected.1) :
    ∃ jobs, ((affected.1, jobs) : Affected) ∈
      Covers { state with attempts, jobs := state.jobs.set key changed } root := by
  obtain ⟨inside, closed⟩ := covers
  refine ⟨(state.jobs.set key changed).keys.toFinset, inside, ⟨closed.artifacts, ?_, ?_⟩⟩
  · exact fun other job found _ => List.mem_toFinset.mpr (Dict.mem_keys.mpr ⟨job, found⟩)
  · intro other job found touches
    simp only [Dict.get?_set] at found
    split at found
    next => exact Option.some.inj found ▸ harmless (Option.some.inj found ▸ touches)
    next => exact closed.results other job found touches

/-- A job that moves on leaves the artifacts affected by a root it does not use as they were. -/
theorem Change.covers {action : Action} {spec : JobSpec} {refs : List ArtifactRef}
    (change : Change sha256 state data action next) (uses : Uses state action data spec refs)
    {root : ArtifactRef} {affected : Affected} (covers : affected ∈ Covers state root)
    (free : ∀ ref ∈ refs, ref.sha256 ∉ affected.1) :
    ∃ jobs, ((affected.1, jobs) : Affected) ∈ Covers next root := by
  cases change with
  | enqueue guard =>
      exact covers_setJob covers _ fun _ ref member => absurd member List.not_mem_nil
  | claim guard =>
      have held := covers.2.results _ _ guard.job_at
      exact covers_setJob covers _ held
  | retry guard =>
      have held := covers.2.results _ _ guard.job_at
      exact covers_setJob covers _ held
  | complete guard =>
      obtain ⟨claim, job, result, decoded, at_job, read, rfl, rfl⟩ := uses
      rw [guard.decoded] at decoded
      obtain rfl := Option.some.inj decoded
      rw [guard.owns.job_at] at at_job
      obtain rfl := Option.some.inj at_job
      rw [guard.read] at read
      obtain rfl := Option.some.inj read
      refine covers_setJob covers _ ?_
      rintro ⟨ref, member, touched⟩
      rcases List.mem_append.mp member with input | evidence
      · exact absurd touched (free ref (by simp [jobInputs] at input ⊢; tauto))
      · exact absurd touched (free ref (List.mem_append_right _ evidence))
  | _ => exact uses.elim

/-- The roots of all notices are registered. -/
def RootsRegistered (state : State) : Prop :=
  ∀ notice ∈ state.notices.values, state.registered notice.root = true

theorem Step.registered {action : Action} (step : Step sha256 state data action next)
    {ref : ArtifactRef} (known : state.registered ref = true) : next.registered ref = true := by
  simp only [State.registered, decide_eq_true_eq, Option.map_eq_some_iff] at known ⊢
  obtain ⟨record, found, same⟩ := known
  exact ⟨record, step.artifact_kept found, same⟩

theorem RootsRegistered.step (roots : RootsRegistered state) {action : Action}
    (step : Step sha256 state data action next) : RootsRegistered next := by
  have kept : ∀ notice ∈ state.notices.values, next.registered notice.root = true :=
    fun notice member => step.registered (roots notice member)
  cases step with
  | expand guard => exact kept
  | event installs change =>
      obtain ⟨merged, _, _, rfl⟩ := install_eq_ok.mp installs.installs
      cases change with
      | quarantine guard =>
          obtain ⟨affected, found⟩ := guard.rooted
          intro notice member
          rw [Dict.values_set_of_absent guard.fresh, List.mem_append, List.mem_singleton] at member
          rcases member with old | rfl
          · exact kept notice old
          · exact (affected_eq_ok.mp found).1
      | lift guard =>
          intro notice member
          obtain ⟨key, found⟩ := Dict.mem_values.mp member
          simp only [Dict.get?_set] at found
          split at found
          next =>
            have known := kept _ (Dict.mem_values.mpr ⟨_, guard.notice_at⟩)
            rw [← Option.some.inj found]
            exact known
          next => exact kept notice (Dict.mem_values.mpr ⟨key, found⟩)
      | _ => exact kept

theorem RootsRegistered.run {events : List (Action × Json.Members)}
    (start : RootsRegistered state) (ran : state.run sha256 events = .ok next) :
    RootsRegistered next :=
  run_induction (motive := fun _ after => RootsRegistered after) start
    (fun _ _ _ _ _ _ roots step => roots.step step) ran

/-- A job moves on under the ignored roots of the installed artifacts, and the references that it
uses avoid what every other active notice affects, both before and after the event. -/
theorem apply_scope {action : Action} {spec : JobSpec} {refs : List ArtifactRef}
    (applied : state.apply sha256 action data = .ok next)
    (uses : Uses state action data spec refs) :
    ∃ merged ignored, (∃ records, state.install records = .ok { state with artifacts := merged }) ∧
      next.artifacts = merged ∧
      Historical.ignoredRoots { state with artifacts := merged } spec = .ok ignored ∧
      ∀ notice ∈ state.notices.values, notice.active = true → notice.root.sha256 ∉ ignored →
        (∀ affected, state.affected notice.root = .ok affected →
          ∀ ref ∈ refs, ref.sha256 ∉ affected.1) ∧
        ∀ affected, next.affected notice.root = .ok affected →
          ∀ ref ∈ refs, ref.sha256 ∉ affected.1 := by
  cases apply_step applied with
  | expand guard => exact uses.elim
  | event installs change =>
      obtain ⟨merged, indexed, installable, rfl⟩ := install_eq_ok.mp installs.installs
      have merges := merges_of_ok indexed
      obtain ⟨ignored, scope, usable⟩ := jobUsable_eq_ok.mp (change.usable uses)
      refine ⟨merged, ignored, ⟨_, installs.installs⟩, change.artifacts_eq.1, scope,
        fun notice listed active outside => ⟨fun affected found ref member inside => ?_,
          fun affected found ref member inside => ?_⟩⟩
      · obtain ⟨wider, same, free⟩ := (usable ref member).2 notice listed active outside
        have covers := (affected_eq_ok.mp same).2.1
        have before := covers.2.of_indexed fun key record stored => (merges key record).mpr (.inl stored)
        exact free (((affected_eq_ok.mp found).2.2 ⟨covers.1, before⟩).1 inside)
      · have shared := fun other (another : other ∈ refs) =>
          (usable other another).2 notice listed active outside
        obtain ⟨wider, same, _⟩ := shared ref member
        have covers := (affected_eq_ok.mp same).2.1
        have free : ∀ other ∈ refs, other.sha256 ∉ wider.1 := by
          intro other another
          obtain ⟨again, equal, clear⟩ := shared other another
          exact Except.ok.inj (equal.symm.trans same) ▸ clear
        obtain ⟨jobs, after⟩ := change.covers uses covers free
        exact free ref member (((affected_eq_ok.mp found).2.2 after).1 inside)

/-- The references that a moving job uses avoid what an active, unignored notice affects, both
before and after the event. -/
theorem apply_avoids {action : Action} {spec : JobSpec} {refs : List ArtifactRef}
    {notice : QuarantineNotice} (applied : state.apply sha256 action data = .ok next)
    (uses : Uses state action data spec refs) (listed : notice ∈ state.notices.values)
    (active : notice.active = true)
    (binding : ∀ merged ignored,
      Historical.ignoredRoots { state with artifacts := merged } spec = .ok ignored →
      notice.root.sha256 ∉ ignored) :
    (∀ affected, state.affected notice.root = .ok affected →
      ∀ ref ∈ refs, ref.sha256 ∉ affected.1) ∧
    ∀ affected, next.affected notice.root = .ok affected →
      ∀ ref ∈ refs, ref.sha256 ∉ affected.1 := by
  obtain ⟨merged, ignored, _, _, scope, avoids⟩ := apply_scope applied uses
  exact avoids notice listed active (binding merged ignored scope)

/-- After every run the affected set of each registered root is the least closed one, and no
job outside the historical-audit scope that uses a member of it is enqueued, claimed, retried
or completed while a notice on the root is active. -/
theorem run_quarantine (sha256 : Bytes → Digest) (limits : RegistryLimits)
    (events : List (Action × Json.Members)) (state : State)
    (ran : (State.empty limits).run sha256 events = .ok state) :
    (∀ root, (state.registered root = false → state.affected root = .error unregistered) ∧
      (state.registered root = true → ∃ affected, state.affected root = .ok affected ∧
        IsLeast (Covers state root) affected)) ∧
    ∀ notice ∈ state.notices.values, notice.active = true →
      (∃ affected, state.affected notice.root = .ok affected) ∧
      ∀ action data next spec refs, state.apply sha256 action data = .ok next →
        Uses state action data spec refs → OutsideScope spec →
        (∀ affected, state.affected notice.root = .ok affected →
          ∀ ref ∈ refs, ref.sha256 ∉ affected.1) ∧
        ∀ affected, next.affected notice.root = .ok affected →
          ∀ ref ∈ refs, ref.sha256 ∉ affected.1 := by
  have start : RootsRegistered (State.empty limits) := fun _ member => by cases member
  have roots := start.run ran
  refine ⟨fun root => ⟨fun unknown => ?_, affected_isLeast⟩, fun notice listed active => ⟨?_, ?_⟩⟩
  · rw [affected, refuse, if_pos unknown]
    rfl
  · obtain ⟨affected, found, _⟩ := affected_isLeast (roots notice listed)
    exact ⟨affected, found⟩
  · intro action data next spec refs applied uses outside
    refine apply_avoids applied uses listed active fun merged ignored scope => ?_
    rw [ignoredRoots_outside outside] at scope
    exact Except.ok.inj scope ▸ Finset.notMem_empty _

/-! ### A sample run: the settings of a job are quarantined -/

def Sample.notice : QuarantineNotice where
  noticeId := ⟨"leaked-settings", by decide +kernel⟩
  root := settings
  reason := ⟨"settings leaked", by decide +kernel⟩
  evidence := ⟨[source], fits_source⟩
  active := true
  resolutionReason := none
  resolutionEvidence := Refs.empty
  nonempty := by simp

def Sample.quarantined : List (Action × Json.Members) :=
  [Sample.registration, (.quarantine, [("artifacts", .arr []),
    ("notice", QuarantineNotice.codec.document Sample.notice)])]

theorem Sample.validated_notice :
    validated QuarantineNotice.codec (FeatureRl.member [("artifacts", .arr []),
      ("notice", QuarantineNotice.codec.document Sample.notice)] "notice") = .ok Sample.notice :=
  validated_document QuarantineNotice.codec Sample.notice

theorem Sample.ran_quarantined :
    ∃ state, (State.empty RegistryLimits.default).run Sample.digestOf Sample.quarantined =
      .ok state ∧ state.notices.get? Sample.notice.noticeId = some Sample.notice := by
  have registers : registration.1 = .register := rfl
  simp only [quarantined, run, foldAll, apply, registers, reduceCtorEq, if_false, applyEvent, applyInstalled,
    applyQuarantine, validated_notice, eventRecords_registration, ok_then]
  exact ran_of_holds (by decide +kernel)

theorem run_quarantine_sample :
    ∃ state, (State.empty RegistryLimits.default).run Sample.digestOf Sample.quarantined =
        .ok state ∧
      ∀ next, state.apply Sample.digestOf Sample.enqueueing.1 Sample.enqueueing.2 ≠ .ok next := by
  obtain ⟨state, ran, noticed⟩ := Sample.ran_quarantined
  refine ⟨state, ran, fun next applied => ?_⟩
  obtain ⟨⟨affected, found⟩, avoids⟩ := (run_quarantine Sample.digestOf RegistryLimits.default
    Sample.quarantined state ran).2 Sample.notice (Dict.mem_values.mpr ⟨_, noticed⟩) rfl
  have uses : Uses state .enqueue Sample.enqueueing.2 Sample.spec (jobInputs Sample.spec) :=
    ⟨JobSpec.codec.validate_document Sample.spec, rfl⟩
  have outside : OutsideScope Sample.spec := .inl (by decide)
  exact (avoids .enqueue _ next _ _ applied uses outside).1 affected found Sample.settings
    (by simp [jobInputs, Sample.spec]) (affected_eq_ok.mp found).2.1.1

end State

end FeatureRl
