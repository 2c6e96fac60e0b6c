import FeatureRl.Registry.Jobs

/-!
Cost accounting. The snapshots of one upstream attempt form a gapless chain of revisions that
only adds information, and a completion is bound to the last link of every chain.
-/

namespace FeatureRl

open Checked

namespace State

variable {sha256 : Bytes → Digest} {documents : Set Bytes} {state next : State}
  {data : Json.Members}

/-! ### Snapshot identities -/

theorem observationDocument_normal (attemptId : Digest) (observation : CostObservation) :
    (observationDocument attemptId observation).normal = true :=
  Json.normal_dict (by simp) (by simp [Json.normal, CostObservation.codec.normal])

theorem observationDocument_injective {attemptId other : Digest}
    {observation another : CostObservation}
    (same : observationDocument attemptId observation = observationDocument other another) :
    attemptId = other ∧ observation = another := by
  have names : Json.str attemptId.val = .str other.val :=
    Json.dict_inj (by simp) (by simp) same "attempt_id" (by simp) (by simp)
  have bodies : CostObservation.codec.document observation =
      CostObservation.codec.document another :=
    Json.dict_inj (by simp) (by simp) same "observation" (by simp) (by simp)
  exact ⟨Subtype.ext (Json.str.inj names), CostObservation.codec.document_injective bodies⟩

/-! ### The latest snapshot of a stream -/

def revision (item : ObservationRecord) : Nat := item.observation.revision.val

/-- The newest of these snapshots in its stream. -/
structure Newest (items : List ObservationRecord) (key : Name × Name) (item : ObservationRecord) :
    Prop where
  member : item ∈ items
  stream_eq : stream item = key
  newest : ∀ other ∈ items, stream other = key → revision other ≤ revision item

theorem keepLatest_get? (result : Dict (Name × Name) ObservationRecord) (item : ObservationRecord)
    (key : Name × Name) : (keepLatest result item).get? key =
      if key = stream item ∧ ∀ old, result.get? key = some old → revision old < revision item then
        some item
      else result.get? key := by
  unfold keepLatest
  by_cases same : key = stream item
  · subst same
    split
    next absent => simp [absent]
    next old present =>
      split
      next newer =>
        rw [Dict.get?_set_self, if_pos]
        exact ⟨rfl, fun other found => by
          rw [present] at found
          exact Option.some.inj found ▸ newer⟩
      next older => rw [if_neg fun both => older (both.2 old present)]
  · split
    next => simp [same, Dict.get?_set_ne]
    next => split <;> simp [same, Dict.get?_set_ne]

theorem latest_fold (items : List ObservationRecord) (key : Name × Name) :
    (∀ item, (items.foldl keepLatest Dict.empty).get? key = some item → Newest items key item) ∧
      ((items.foldl keepLatest Dict.empty).get? key = none →
        ∀ item ∈ items, stream item ≠ key) := by
  induction items using List.reverseRecOn with
  | nil => simp
  | append_singleton items last ih =>
      obtain ⟨found, absent⟩ := ih
      rw [List.foldl_concat, keepLatest_get?]
      by_cases newer : key = stream last ∧ ∀ old,
          (items.foldl keepLatest Dict.empty).get? key = some old → revision old < revision last
      · rw [if_pos newer]
        refine ⟨?_, by simp⟩
        rintro item ⟨⟩
        refine ⟨by simp, newer.1.symm, ?_⟩
        intro other member same
        rcases List.mem_append.mp member with earlier | here
        · cases kept : (items.foldl keepLatest Dict.empty).get? key with
          | none => exact absurd same (absent kept other earlier)
          | some old => exact ((found old kept).newest other earlier same).trans (newer.2 old kept).le
        · rw [List.mem_singleton.mp here]
      · rw [if_neg newer]
        refine ⟨fun item kept => ?_, fun kept item member => ?_⟩
        · obtain ⟨earlier, same, top⟩ := found item kept
          refine ⟨List.mem_append_left _ earlier, same, fun other member equal => ?_⟩
          rcases List.mem_append.mp member with before | here
          · exact top other before equal
          · rw [List.mem_singleton.mp here] at equal ⊢
            by_contra above
            exact newer ⟨equal.symm, fun old other => by
              rw [kept] at other
              exact Option.some.inj other ▸ Nat.lt_of_not_le above⟩
        · rcases List.mem_append.mp member with before | here
          · exact absent kept item before
          · rw [List.mem_singleton.mp here]
            rintro rfl
            exact newer ⟨rfl, fun old other => by rw [kept] at other; cases other⟩

theorem latest_newest {key : Name × Name} {item : ObservationRecord}
    (found : state.latest.get? key = some item) : Newest state.observations.values key item :=
  (latest_fold _ key).1 item found

theorem latest_none {key : Name × Name} (absent : state.latest.get? key = none)
    {item : ObservationRecord} (member : item ∈ state.observations.values) : stream item ≠ key :=
  (latest_fold _ key).2 absent item member

theorem exists_latest {item : ObservationRecord} (member : item ∈ state.observations.values) :
    ∃ newest, state.latest.get? (stream item) = some newest := by
  cases found : state.latest.get? (stream item) with
  | none => exact absurd rfl (latest_none found member)
  | some newest => exact ⟨newest, rfl⟩

/-! ### The chain of revisions -/

/-- Nothing known about a cost was lost: dimensions stay known and do not decrease. -/
def NotReduced (before after : CostRecord) : Prop :=
  before.category = after.category ∧
    ∀ (index : Nat) (known : ℚ), before.dimensions[index]? = some (some known) →
      ∃ later, after.dimensions[index]? = some (some later) ∧ known ≤ later

/-- A later snapshot keeps every receipt, every category and every known dimension. -/
structure Informs (before after : CostObservation) : Prop where
  receipts : before.receipts.val ⊆ after.receipts.val
  costs : ∀ cost ∈ before.costs, ∃ newer ∈ after.costs, NotReduced cost newer

theorem CostKept.notReduced {costs : List CostRecord} {cost : CostRecord}
    (kept : CostKept costs cost) : ∃ newer ∈ costs, NotReduced cost newer := by
  obtain ⟨newer, found, dimensions⟩ := kept
  have category := List.find?_some found
  rw [decide_eq_true_eq] at category
  refine ⟨newer, List.mem_of_find?_eq_some found, category.symm, ?_⟩
  intro index known at_index
  have lengths : newer.dimensions.length = cost.dimensions.length := rfl
  obtain ⟨bound, _⟩ := List.getElem?_eq_some_iff.mp at_index
  obtain ⟨later, there⟩ : ∃ later, newer.dimensions[index]? = some later :=
    ⟨_, List.getElem?_eq_getElem (lengths ▸ bound)⟩
  have kept := dimensions (some known, later)
    (List.mem_of_getElem? (List.getElem?_zip_eq_some.mpr ⟨at_index, there⟩))
  cases later with
  | none => simp [reduces] at kept
  | some current => exact ⟨current, there, by simpa [reduces] using kept⟩

theorem Continues.informs {attemptId : Digest} {observation : CostObservation}
    {latest : ObservationRecord} (continues : Continues attemptId observation latest) :
    Informs latest.observation observation :=
  ⟨continues.receipts, fun cost member => (continues.costs cost member).notReduced⟩

/-- Snapshots are stored under their identities and chained by their revisions. -/
structure CostInvariant (sha256 : Bytes → Digest) (documents : Set Bytes) (state : State) :
    Prop where
  keyed : ∀ {key item}, state.observations.get? key = some item →
    item = newObservation sha256 item.attemptId item.observation ∧ item.observationId = key
  hashed : ∀ {key item}, state.observations.get? key = some item →
    (observationDocument item.attemptId item.observation).canonical ∈ documents
  bound : ∀ {item other}, item ∈ state.observations.values → other ∈ state.observations.values →
    stream item = stream other → item.attemptId = other.attemptId
  unique : ∀ {item other}, item ∈ state.observations.values → other ∈ state.observations.values →
    stream item = stream other → revision item = revision other → item = other
  chained : ∀ {item}, item ∈ state.observations.values → revision item = 1 ∨
    ∃ before ∈ state.observations.values, stream before = stream item ∧
      revision item = revision before + 1 ∧ Informs before.observation item.observation

namespace CostInvariant

theorem empty (limits : RegistryLimits) :
    CostInvariant sha256 documents (State.empty limits) := by
  constructor <;> simp [State.empty]

section Reconcile

variable {claim : Claim} {attempt : AttemptRecord} {job : JobRecord}
  {observation : CostObservation}

/-- A reconciliation follows the latest snapshot of its stream, if there is one. -/
theorem follows (guard : Reconciles state data claim attempt job observation)
    {item : ObservationRecord} (member : item ∈ state.observations.values)
    (same : stream item = (observation.source, observation.upstreamAttemptId)) :
    ∃ newest, Newest state.observations.values (stream item) newest ∧
      Continues claim.attemptId observation newest := by
  obtain ⟨newest, found⟩ := exists_latest member
  have revised := guard.revised
  rw [← same, found, checkRevision_some_eq_ok] at revised
  exact ⟨newest, latest_newest found, revised⟩

theorem older (guard : Reconciles state data claim attempt job observation)
    {item : ObservationRecord} (member : item ∈ state.observations.values)
    (same : stream item = (observation.source, observation.upstreamAttemptId)) :
    revision item < observation.revision.val := by
  obtain ⟨newest, top, continues⟩ := follows guard member same
  rw [continues.revision]
  exact Nat.lt_succ_of_le (top.newest item member rfl)

/-- A reconciliation stores its snapshot under a new identity. -/
theorem observation_fresh (invariant : CostInvariant sha256 documents state)
    (collisionFree : Set.InjOn sha256 documents)
    (guard : Reconciles state data claim attempt job observation)
    (hashed : (observationDocument claim.attemptId observation).canonical ∈ documents) :
    state.observations.get? (observationKey sha256 claim.attemptId observation) = none := by
  cases found : state.observations.get? (observationKey sha256 claim.attemptId observation) with
  | none => rfl
  | some item =>
      obtain ⟨named, key⟩ := invariant.keyed found
      have digests : sha256 (observationDocument item.attemptId item.observation).canonical =
          sha256 (observationDocument claim.attemptId observation).canonical := by
        rw [named] at key
        exact key
      have same := (observationDocument_injective (Json.canonical_injective
        (observationDocument_normal _ _) (observationDocument_normal _ _)
        (collisionFree (invariant.hashed found) hashed digests))).2
      have newer := older guard (Dict.mem_values.mpr ⟨_, found⟩) (by rw [stream, same])
      rw [revision, same] at newer
      exact absurd newer (Nat.lt_irrefl _)

theorem reconcile (invariant : CostInvariant sha256 documents state)
    (collisionFree : Set.InjOn sha256 documents)
    (guard : Reconciles state data claim attempt job observation)
    (hashed : (observationDocument claim.attemptId observation).canonical ∈ documents) :
    CostInvariant sha256 documents { state with
      observations := state.observations.set (observationKey sha256 claim.attemptId observation)
        (newObservation sha256 claim.attemptId observation) } := by
  have fresh := invariant.observation_fresh collisionFree guard hashed
  have split : ∀ {item}, item ∈ (state.observations.set
      (observationKey sha256 claim.attemptId observation)
      (newObservation sha256 claim.attemptId observation)).values ↔
      item ∈ state.observations.values ∨ item = newObservation sha256 claim.attemptId observation := by
    intro item
    rw [Dict.values_set_of_absent fresh, List.mem_append, List.mem_singleton]
  constructor
  · intro key item found
    simp only [Dict.get?_set] at found
    split at found
    next same => exact Option.some.inj found ▸ ⟨rfl, same.symm⟩
    next => exact invariant.keyed found
  · intro key item found
    simp only [Dict.get?_set] at found
    split at found
    next => exact Option.some.inj found ▸ hashed
    next => exact invariant.hashed found
  · intro item other member another same
    rcases split.mp member with old | rfl <;> rcases split.mp another with before | rfl
    · exact invariant.bound old before same
    · obtain ⟨newest, top, continues⟩ := follows guard old same
      exact (invariant.bound old top.member top.stream_eq.symm).trans continues.bound
    · obtain ⟨newest, top, continues⟩ := follows guard before same.symm
      exact ((invariant.bound before top.member top.stream_eq.symm).trans continues.bound).symm
    · rfl
  · intro item other member another same revisions
    rcases split.mp member with old | rfl <;> rcases split.mp another with before | rfl
    · exact invariant.unique old before same revisions
    · exact absurd revisions (Nat.ne_of_lt (older guard old same))
    · exact absurd revisions.symm (Nat.ne_of_lt (older guard before same.symm))
    · rfl
  · intro item member
    rcases split.mp member with old | rfl
    · refine (invariant.chained old).imp id ?_
      rintro ⟨before, earlier, rest⟩
      exact ⟨before, split.mpr (.inl earlier), rest⟩
    · have revised := guard.revised
      cases found : state.latest.get? (observation.source, observation.upstreamAttemptId) with
      | none =>
          rw [found, checkRevision_none_eq_ok] at revised
          exact .inl revised
      | some newest =>
          rw [found, checkRevision_some_eq_ok] at revised
          have top := latest_newest found
          exact .inr ⟨newest, split.mpr (.inl top.member), top.stream_eq, revised.revision,
            revised.informs⟩

end Reconcile

/-- The invariant reads only the snapshots. -/
theorem frame (invariant : CostInvariant sha256 documents state) {next : State}
    (same : next.observations = state.observations) : CostInvariant sha256 documents next := by
  constructor
  · exact fun found => invariant.keyed (same ▸ found)
  · exact fun found => invariant.hashed (same ▸ found)
  · exact fun member another => invariant.bound (same ▸ member) (same ▸ another)
  · exact fun member another => invariant.unique (same ▸ member) (same ▸ another)
  · exact fun member => by
      rw [same] at member ⊢
      exact invariant.chained member

theorem change (invariant : CostInvariant sha256 documents state)
    (collisionFree : Set.InjOn sha256 documents) {action : Action}
    (hashed : ∀ document ∈ hashedDocument action data, document.canonical ∈ documents)
    (change : Change sha256 state data action next) : CostInvariant sha256 documents next := by
  cases change with
  | reconcile guard =>
      exact invariant.reconcile collisionFree guard
        (hashed _ (by simp [hashedDocument, guard.decoded, guard.observed]))
  | _ => exact invariant.frame rfl

theorem step (invariant : CostInvariant sha256 documents state)
    (collisionFree : Set.InjOn sha256 documents) {action : Action}
    (hashed : ∀ document ∈ hashedDocument action data, document.canonical ∈ documents)
    (step : Step sha256 state data action next) : CostInvariant sha256 documents next := by
  cases step with
  | expand guard => exact invariant.frame rfl
  | event installs change =>
      obtain ⟨artifacts, _, _, rfl⟩ := install_eq_ok.mp installs.installs
      have framed : CostInvariant sha256 documents { state with artifacts } := invariant.frame rfl
      exact framed.change collisionFree hashed change

theorem run {events : List (Action × Json.Members)} (start : CostInvariant sha256 documents state)
    (collisionFree : Set.InjOn sha256 documents) (hashed : hashedBy events ⊆ documents)
    (ran : state.run sha256 events = .ok next) : CostInvariant sha256 documents next := by
  refine run_induction (motive := fun events after => hashedBy events ⊆ documents →
    CostInvariant sha256 documents after) (fun _ => start) ?_ ran hashed
  intro events before action data after _ ih step within
  obtain ⟨earlier, last⟩ := hashedBy_concat_subset within
  exact (ih earlier).step collisionFree last step

/-- Below every snapshot its stream has all smaller revisions. -/
theorem chain (invariant : CostInvariant sha256 documents state) {item : ObservationRecord}
    (member : item ∈ state.observations.values) {number : Nat} (positive : 1 ≤ number)
    (below : number ≤ revision item) :
    ∃ before ∈ state.observations.values, stream before = stream item ∧
      revision before = number := by
  induction size : revision item generalizing item with
  | zero => omega
  | succ count ih =>
      by_cases here : number = revision item
      · exact ⟨item, member, rfl, here.symm⟩
      · rcases invariant.chained member with first | ⟨before, earlier, same, next, _⟩
        · omega
        · obtain ⟨found, there, equal, at_number⟩ := ih earlier (by omega) (by omega)
          exact ⟨found, there, equal.trans same, at_number⟩

end CostInvariant

/-! ### Accounting reports -/

theorem mem_sortIdentities {identities : List Digest} {id : Digest} :
    id ∈ sortIdentities identities ↔ id ∈ identities :=
  (List.perm_insertionSort _ _).mem_iff

theorem mem_sortObservations {items : List ObservationRecord} {item : ObservationRecord} :
    item ∈ sortObservations items ↔ item ∈ items :=
  (List.perm_insertionSort _ _).mem_iff

/-- The latest snapshots are the newest of their streams. -/
theorem CostInvariant.mem_latest (invariant : CostInvariant sha256 documents state)
    {item : ObservationRecord} : item ∈ state.latest.values ↔
      Newest state.observations.values (stream item) item := by
  rw [Dict.mem_values]
  constructor
  · rintro ⟨key, found⟩
    have top := latest_newest found
    exact top.stream_eq.symm ▸ top
  · intro top
    obtain ⟨newest, found⟩ := exists_latest top.member
    have other := latest_newest found
    have same := invariant.unique top.member other.member other.stream_eq.symm
      (Nat.le_antisymm (other.newest item top.member rfl)
        (top.newest newest other.member other.stream_eq))
    exact ⟨stream item, same ▸ found⟩

/-- A report that splits the attempts of a job into observed and unobserved ones. -/
structure Partitions (state : State) (job : JobRecord) (report : AccountingReport) : Prop where
  latest : ∀ item, item ∈ report.observations ↔
    Newest state.observations.values (stream item) item ∧ item.attemptId ∈ job.attempts
  unobserved : ∀ id, id ∈ report.unobservedAttempts ↔
    id ∈ job.attempts ∧ ¬ ∃ item ∈ report.observations, item.attemptId = id
  covered : ∀ id ∈ job.attempts, (∃ item ∈ report.observations, item.attemptId = id) ↔
    ∃ item ∈ state.observations.values, item.attemptId = id

theorem CostInvariant.accounting (invariant : CostInvariant sha256 documents state)
    {jobId : Digest} {job : JobRecord} (at_job : state.jobs.get? jobId = some job) :
    ∃ report, state.accounting jobId = .ok report ∧ Partitions state job report := by
  have got : state.getJob jobId = .ok job := require_eq_ok.mpr at_job
  refine ⟨_, by rw [State.accounting, got]; rfl, ?_, ?_, ?_⟩
  · intro item
    simp only [mem_sortObservations, List.mem_filter, decide_eq_true_eq, invariant.mem_latest]
  · intro id
    simp only [List.mem_filter, decide_eq_true_eq, List.mem_map]
  · intro id listed
    simp only [mem_sortObservations, List.mem_filter, decide_eq_true_eq, invariant.mem_latest]
    constructor
    · rintro ⟨item, ⟨top, _⟩, same⟩
      exact ⟨item, top.member, same⟩
    · rintro ⟨item, member, same⟩
      obtain ⟨newest, found⟩ := exists_latest member
      have top := latest_newest found
      have bound := (invariant.bound top.member member top.stream_eq).trans same
      exact ⟨newest, ⟨top.stream_eq.symm ▸ top, bound.symm ▸ listed⟩, bound⟩

/-! ### Cost-complete completions -/

theorem lists_eq_true {items : List Json} {digests : List Digest} :
    lists items digests = true ↔ items = digests.map fun digest => .str digest.val := by
  induction items generalizing digests with
  | nil => cases digests <;> simp [lists]
  | cons item items ih =>
      cases digests with
      | nil => simp [lists]
      | cons digest digests =>
          cases item <;> simp [lists, matchesText, ih]

theorem snapshotCosts_eq_ok {keys : List Digest} {costs : List CostRecord}
    (gathered : state.snapshotCosts keys = .ok costs) :
    costs = keys.flatMap fun key =>
      ((state.observations.get? key).map fun item => item.observation.costs).getD [] := by
  induction keys generalizing costs with
  | nil => exact (Except.ok.inj gathered).symm
  | cons key rest ih =>
      simp only [snapshotCosts, bind_eq_ok, require_eq_ok, Except.ok.injEq] at gathered
      obtain ⟨item, found, later, below, rfl⟩ := gathered
      rw [List.flatMap_cons, found, ih below]
      rfl

/-- The distinct identities of the newest snapshots of an attempt. -/
structure ListsLatest (state : State) (attemptId : Digest) (ids : List Digest) : Prop where
  distinct : ids.Nodup
  exact : ∀ id, id ∈ ids ↔ ∃ item, state.observations.get? id = some item ∧
    item.attemptId = attemptId ∧ Newest state.observations.values (stream item) item

theorem CostInvariant.wanted (invariant : CostInvariant sha256 documents state)
    (attemptId : Digest) : ListsLatest state attemptId (state.wanted attemptId) where
  distinct := by
    refine (List.perm_insertionSort _ _).nodup_iff.mpr (List.Nodup.map_on ?_ ?_)
    · intro item member other another same
      have top := invariant.mem_latest.mp (List.mem_filter.mp member).1
      have newest := invariant.mem_latest.mp (List.mem_filter.mp another).1
      obtain ⟨key, found⟩ := Dict.mem_values.mp top.member
      obtain ⟨again, refound⟩ := Dict.mem_values.mp newest.member
      have keys : key = again :=
        (invariant.keyed found).2.symm.trans (same.trans (invariant.keyed refound).2)
      rw [keys, refound] at found
      exact (Option.some.inj found).symm
    · refine List.Nodup.filter _ (List.Nodup.of_map stream ?_)
      have keys : state.latest.values.map stream = state.latest.keys := by
        rw [Dict.values, Dict.keys, List.map_map]
        refine List.map_congr_left fun entry member => ?_
        exact (latest_newest (Dict.mem_entries.mp member)).stream_eq
      exact keys ▸ state.latest.nodup
  exact id := by
    simp only [State.wanted, mem_sortIdentities, List.mem_map, List.mem_filter, decide_eq_true_eq,
      invariant.mem_latest]
    constructor
    · rintro ⟨item, ⟨top, bound⟩, rfl⟩
      obtain ⟨key, found⟩ := Dict.mem_values.mp top.member
      exact ⟨item, (invariant.keyed found).2.symm ▸ found, bound, top⟩
    · rintro ⟨item, found, bound, top⟩
      exact ⟨item, ⟨top, bound⟩, (invariant.keyed found).2⟩

/-- A completion payload that lists exactly the newest snapshot of every stream of its attempt,
with a result that costs exactly what these snapshots cost. -/
def BindsCosts (state : State) (data : Json.Members) : Prop :=
  ∃ claim result ids, Claim.codec.validate (member data "claim") = some claim ∧
    OperationResult.codec.validate (member data "result") = some result ∧
    iterate (member data "observations") = .ok (ids.map fun id => .str id.val) ∧
    ListsLatest state claim.attemptId ids ∧
    result.costs.isEqv (ids.flatMap fun id =>
      ((state.observations.get? id).map fun item => item.observation.costs).getD [])
      CostRecord.equal = true

theorem Completes.bindsCosts {claim : Claim} {attempt : AttemptRecord} {job : JobRecord}
    {result : OperationResult} (guard : Completes state data claim attempt job result)
    (invariant : CostInvariant sha256 documents state) : BindsCosts state data := by
  obtain ⟨declared, iterated, listed⟩ := guard.bound
  obtain ⟨costs, gathered, equal⟩ := guard.costs
  refine ⟨claim, result, state.wanted claim.attemptId, guard.decoded, guard.read, ?_,
    invariant.wanted _, ?_⟩
  · rw [iterated, lists_eq_true.mp listed]
  · rw [← snapshotCosts_eq_ok gathered]
    exact equal

/-! ### Cost accounting of a run -/

/-- The snapshots of every stream are a gapless, monotone chain bound to one attempt, and the
report of every job splits its attempts. -/
structure CostAccounting (state : State) : Prop where
  revisions : ∀ key, ∃ count, ∀ number,
    (∃ item ∈ state.observations.values, stream item = key ∧ revision item = number) ↔
      1 ≤ number ∧ number ≤ count
  unique : ∀ item ∈ state.observations.values, ∀ other ∈ state.observations.values,
    stream item = stream other → revision item = revision other → item = other
  bound : ∀ item ∈ state.observations.values, ∀ other ∈ state.observations.values,
    stream item = stream other → item.attemptId = other.attemptId
  informs : ∀ item ∈ state.observations.values, ∀ other ∈ state.observations.values,
    stream item = stream other → revision other = revision item + 1 →
    Informs item.observation other.observation
  partition : ∀ jobId job, state.jobs.get? jobId = some job →
    ∃ report, state.accounting jobId = .ok report ∧ Partitions state job report

theorem CostInvariant.costAccounting (invariant : CostInvariant sha256 documents state) :
    CostAccounting state where
  revisions key := by
    cases found : state.latest.get? key with
    | none =>
        refine ⟨0, fun number => ⟨?_, by omega⟩⟩
        rintro ⟨item, member, same, _⟩
        exact absurd same (latest_none found member)
    | some newest =>
        have top := latest_newest found
        refine ⟨revision newest, fun number => ⟨?_, ?_⟩⟩
        · rintro ⟨item, member, same, rfl⟩
          exact ⟨item.observation.revision.low_le, top.newest item member same⟩
        · rintro ⟨positive, below⟩
          obtain ⟨item, member, same, at_number⟩ := invariant.chain top.member positive below
          exact ⟨item, member, same.trans top.stream_eq, at_number⟩
  unique _ member _ another := invariant.unique member another
  bound _ member _ another := invariant.bound member another
  informs item member other another same next := by
    rcases invariant.chained another with first | ⟨before, earlier, equal, step, informs⟩
    · have positive := item.observation.revision.low_le
      simp only [revision] at first next
      omega
    · obtain rfl := invariant.unique earlier member (equal.trans same.symm) (by omega)
      exact informs
  partition _ _ at_job := invariant.accounting at_job

/-- After every run the costs are accounted for, and the run's next completion is accepted only
if it binds the current costs of its attempt. -/
theorem run_costAccounting (sha256 : Bytes → Digest) (limits : RegistryLimits)
    (events : List (Action × Json.Members)) (state : State)
    (collisionFree : Set.InjOn sha256 (hashedBy events))
    (ran : (State.empty limits).run sha256 events = .ok state) :
    CostAccounting state ∧ ∀ data next, state.apply sha256 .complete data = .ok next →
      BindsCosts state data := by
  have invariant := (CostInvariant.empty limits).run collisionFree (Set.Subset.refl _) ran
  refine ⟨invariant.costAccounting, fun data next applied => ?_⟩
  cases apply_step applied with
  | event installs change =>
      obtain ⟨artifacts, _, _, rfl⟩ := install_eq_ok.mp installs.installs
      have framed : CostInvariant sha256 (hashedBy events) { state with artifacts } :=
        invariant.frame rfl
      cases change with
      | complete guard =>
          obtain ⟨claim, result, ids, decoded, read, listed, latest, costs⟩ :=
            guard.bindsCosts framed
          exact ⟨claim, result, ids, decoded, read, listed, ⟨latest.distinct, latest.exact⟩, costs⟩

theorem run_costAccounting_sample :
    ∃ state, (State.empty RegistryLimits.default).run Sample.digestOf Sample.events = .ok state ∧
      CostAccounting state := by
  obtain ⟨state, ran, _⟩ := Sample.ran
  exact ⟨state, ran, (run_costAccounting Sample.digestOf RegistryLimits.default Sample.events state
    Sample.collisionFree ran).1⟩

end State

end FeatureRl
