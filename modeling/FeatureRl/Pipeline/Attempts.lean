import FeatureRl.Pipeline.Authoring

/-! The attempts that a factory finds are those of the registry, and what it checks is their charge. -/

namespace FeatureRl

open Checked
open State (Named InputsRegistered)

namespace Authoring

variable {records : ArtifactRef → Option AuthoringRequest} {state : State} {candidate : ArtifactRef}

/-! ### Listing -/

/-- The request of an attempt at the candidate. -/
def authored (records : ArtifactRef → Option AuthoringRequest) (candidate : ArtifactRef) (job : JobRecord) :
    Option AuthoringRequest :=
  if isAuthoring job.spec then
    match job.spec.inputs.val with
    | [subject, ref] => if subject = candidate then records ref else none
    | _ => none
  else none

/-- The attempts at a candidate with their requests, as the registry has them. -/
def calls (records : ArtifactRef → Option AuthoringRequest) (state : State) (candidate : ArtifactRef) :
    List (JobRecord × AuthoringRequest) :=
  state.jobs.values.filterMap fun job => (authored records candidate job).map fun request => (job, request)

theorem authored_congr {job other : JobRecord} (same : other.spec = job.spec) :
    authored records candidate other = authored records candidate job := by
  rw [authored, authored, same]

theorem mem_inputs_of_authored {job : JobRecord} {request : AuthoringRequest}
    (read : authored records candidate job = some request) : candidate ∈ job.spec.inputs.val := by
  rw [authored] at read
  split at read
  next =>
    split at read
    next subject ref inputs =>
      split at read
      next same => simp [inputs, same]
      next => cases read
    next => cases read
  next => cases read

theorem isAuthoring_of_authored {job : JobRecord} {request : AuthoringRequest}
    (read : authored records candidate job = some request) : isAuthoring job.spec = true := by
  rw [authored] at read
  split at read
  next holds => exact holds
  next => cases read

theorem readJob_eq_ok {job : JobRecord} {found : Option (JobRecord × AuthoringRequest)}
    (read : readJob records candidate job = .ok found) :
    found = (authored records candidate job).map fun request => (job, request) := by
  rw [readJob] at read
  rw [authored]
  split at read
  next holds =>
    rw [if_pos holds]
    split at read
    next subject ref inputs =>
      split at read
      next same =>
        simp only [bind_eq_ok, require_eq_ok] at read
        obtain ⟨request, stored, _, _, done⟩ := read
        obtain rfl := Except.ok.inj done
        simp [inputs, same, stored]
      next different =>
        obtain rfl := Except.ok.inj read
        simp [inputs, different]
    next => cases read
  next holds =>
    obtain rfl := Except.ok.inj read
    simp [holds]

theorem readJobs_eq_ok {ids : List Digest} {entries : List (JobRecord × AuthoringRequest)}
    (read : readJobs records state candidate ids = .ok entries) :
    entries = ids.filterMap fun id => (state.jobs.get? id).bind fun job =>
      (authored records candidate job).map fun request => (job, request) := by
  induction ids generalizing entries with
  | nil => exact (Except.ok.inj read).symm
  | cons id rest ih =>
      simp only [readJobs, State.getJob, bind_eq_ok, require_eq_ok] at read
      obtain ⟨job, present, found, here, others, later, done⟩ := read
      obtain rfl := Except.ok.inj done
      rw [List.filterMap_cons, ← ih later, present, Option.bind_some, ← readJob_eq_ok here]
      cases found <;> rfl

/-- A reading fails for an unknown identity only at a job that is not there. -/
theorem readJobs_known {ids : List Digest} (present : ∀ id ∈ ids, id ∈ state.jobs.keys) {failure : Failure}
    (failed : readJobs records state candidate ids = .error failure) : failure.kind ≠ .unknownIdentity := by
  induction ids with
  | nil => cases failed
  | cons id rest ih =>
      obtain ⟨job, found⟩ := Dict.mem_keys.mp (present id List.mem_cons_self)
      simp only [readJobs, State.getJob, found, require, bind, Except.bind] at failed
      cases one : readJob records candidate job with
      | error earlier =>
          rw [one] at failed
          obtain rfl := Except.error.inj failed
          rw [readJob] at one
          split at one
          next =>
            split at one
            next subject ref inputs =>
              split at one
              next =>
                cases stored : records ref with
                | none =>
                    simp only [stored, require, bind, Except.bind, Except.error.injEq] at one
                    subst one
                    simp [invalid]
                | some request =>
                    simp only [stored, require, bind, Except.bind, refuse] at one
                    split at one
                    next mismatch =>
                      split at mismatch
                      next => cases mismatch; cases one; simp [lineage]
                      next => cases mismatch
                    next => cases one
              next => cases one
            next => cases one; simp
          next => cases one
      | ok entry =>
          rw [one] at failed
          simp only at failed
          cases rest_read : readJobs records state candidate rest with
          | error earlier =>
              rw [rest_read] at failed
              obtain rfl := Except.error.inj failed
              exact ih (fun other member => present other (List.mem_cons_of_mem _ member)) rest_read
          | ok others =>
              rw [rest_read] at failed
              cases failed

theorem mem_calls {job : JobRecord} {request : AuthoringRequest} :
    (job, request) ∈ calls records state candidate ↔
      (∃ key, state.jobs.get? key = some job) ∧ authored records candidate job = some request := by
  simp only [calls, List.mem_filterMap, Option.map_eq_some_iff, Prod.mk.injEq, Dict.mem_values]
  constructor
  · rintro ⟨other, present, found, read, rfl, rfl⟩
    exact ⟨present, read⟩
  · rintro ⟨present, read⟩
    exact ⟨job, present, request, read, rfl, rfl⟩

theorem nodup_calls (named : Named state) : (calls records state candidate).Nodup := by
  have values : state.jobs.values.Nodup := by
    apply List.Nodup.of_map JobRecord.jobId
    have keys : state.jobs.values.map JobRecord.jobId = state.jobs.keys := by
      rw [Dict.values, Dict.keys, List.map_map]
      refine List.map_congr_left fun entry member => ?_
      exact named entry.1 entry.2 (Dict.mem_entries.mp member)
    rw [keys]
    exact state.jobs.nodup
  refine values.filterMap ?_
  intro one two entry first second
  obtain ⟨_, _, rfl⟩ := Option.map_eq_some_iff.mp first
  obtain ⟨_, _, same⟩ := Option.map_eq_some_iff.mp second
  exact (Prod.mk.inj same).1.symm

/-- What the trace of a candidate lists are its attempts, each once. -/
theorem jobs_perm (named : Named state) {entries : List (JobRecord × AuthoringRequest)}
    (listed : jobs records state candidate = .ok entries) :
    entries.Perm (calls records state candidate) := by
  simp only [jobs, bind_eq_ok] at listed
  obtain ⟨affected, traced, read⟩ := listed
  obtain ⟨_, covers, _⟩ := State.affected_eq_ok.mp traced
  have entries_eq := readJobs_eq_ok read
  have nodup : entries.Nodup := by
    rw [entries_eq]
    refine (Finset.sort_nodup affected.2 _).filterMap ?_
    intro one two entry first second
    obtain ⟨job, present, some_one⟩ := Option.bind_eq_some_iff.mp first
    obtain ⟨other, another, some_two⟩ := Option.bind_eq_some_iff.mp second
    obtain ⟨_, _, rfl⟩ := Option.map_eq_some_iff.mp some_one
    obtain ⟨_, _, same⟩ := Option.map_eq_some_iff.mp some_two
    obtain rfl := (Prod.mk.inj same).1
    exact (named _ _ present).symm.trans (named _ _ another)
  refine (List.perm_ext_iff_of_nodup nodup (nodup_calls named)).mpr ?_
  rintro ⟨job, request⟩
  rw [entries_eq, mem_calls, List.mem_filterMap]
  constructor
  · rintro ⟨id, _, found⟩
    obtain ⟨other, present, mapped⟩ := Option.bind_eq_some_iff.mp found
    obtain ⟨_, read, same⟩ := Option.map_eq_some_iff.mp mapped
    obtain ⟨rfl, rfl⟩ := Prod.mk.inj same
    exact ⟨⟨id, present⟩, read⟩
  · rintro ⟨⟨id, present⟩, read⟩
    refine ⟨id, (Finset.mem_sort _).mpr ?_, ?_⟩
    · exact covers.2.jobs id job present ⟨candidate, by
        simp [State.jobDependencies, mem_inputs_of_authored read], covers.1⟩
    · simp [present, read]

theorem memberJobs_perm (named : Named state) (inputs : InputsRegistered state)
    {entries : List (JobRecord × AuthoringRequest)} (listed : memberJobs records state candidate = .ok entries) :
    entries.Perm (calls records state candidate) := by
  rw [memberJobs] at listed
  split at listed
  next failure failed =>
    split at listed
    next unknown =>
      obtain rfl := Except.ok.inj listed
      -- An unregistered candidate is no job's input, so there is no attempt at it.
      have unregistered : state.registered candidate = false := by
        by_contra registered
        rw [Bool.not_eq_false] at registered
        obtain ⟨affected, traced, isLeast⟩ := State.affected_isLeast registered
        simp only [jobs, traced, bind, Except.bind] at failed
        refine readJobs_known ?_ failed unknown
        intro id member
        have below := isLeast.2 (show state.everything candidate ∈ State.Covers state candidate from
          ⟨by simp [State.everything], State.closed_everything candidate⟩)
        exact List.mem_toFinset.mp (below.2 ((Finset.mem_sort _).mp member))
      have empty : calls records state candidate = [] := by
        rw [List.eq_nil_iff_forall_not_mem]
        rintro ⟨job, request⟩ member
        obtain ⟨⟨key, present⟩, read⟩ := mem_calls.mp member
        rw [inputs key job present candidate (mem_inputs_of_authored read)] at unregistered
        cases unregistered
      rw [empty]
    next => cases listed
  next found listedJobs =>
    obtain rfl := Except.ok.inj listed
    exact jobs_perm named listedJobs

/-! ### Charges -/

/-- What an attempt is charged with the costs that are known of it. -/
def usageOf (state : State) (entry : JobRecord × AuthoringRequest) : Usage :=
  charge entry.2.call.limits (match observedCosts state entry.1 with
    | .ok costs => costs
    | .error _ => [])

def total (state : State) (entries : List (JobRecord × AuthoringRequest)) : Usage :=
  (entries.map (usageOf state)).foldl Usage.add Usage.none

instance : RightCommutative Usage.add where
  right_comm one two three := by
    simp only [Usage.add, Usage.mk.injEq]
    refine ⟨by omega, by omega, by ring, by ring, by omega, ?_⟩
    rw [max_assoc, max_comm two.memoryBytes, ← max_assoc]

theorem total_perm {entries others : List (JobRecord × AuthoringRequest)} (same : entries.Perm others) :
    total state entries = total state others := (same.map _).foldl_eq _

theorem foldAll_usage {step : Usage → JobRecord × AuthoringRequest → Outcome Usage}
    (each : ∀ before entry after, step before entry = .ok after → after = before.add (usageOf state entry))
    {entries : List (JobRecord × AuthoringRequest)} {before after : Usage}
    (folded : foldAll step before entries = .ok after) :
    after = (entries.map (usageOf state)).foldl Usage.add before := by
  induction entries generalizing before with
  | nil => exact (Except.ok.inj folded).symm
  | cons entry rest ih =>
      obtain ⟨middle, here, later⟩ := foldAll_cons_eq_ok.mp folded
      rw [ih later, each _ _ _ here]
      rfl

theorem reserved_eq_ok {entries : List (JobRecord × AuthoringRequest)} {proposed : AuthoringCall}
    {usage : Usage} (computed : reserved state entries proposed = .ok usage) :
    usage = (total state entries).add (charge proposed.limits []) := by
  simp only [reserved, bind_eq_ok] at computed
  obtain ⟨sum, folded, done⟩ := computed
  obtain rfl := Except.ok.inj done
  rw [total, foldAll_usage ?_ folded]
  rintro before ⟨job, request⟩ after charged
  simp only [bind_eq_ok] at charged
  obtain ⟨observed, found, done⟩ := charged
  obtain rfl := Except.ok.inj done
  simp [usageOf, found]

theorem fromRegistry_eq_ok {α : Type} {outcome : Outcome α} {value : α} :
    fromRegistry outcome = .ok value ↔ outcome = .ok value := by
  cases outcome <;> simp [fromRegistry, Except.mapError]

theorem checkCaps_eq_ok {caps : AuthoringCaps} {entries : List (JobRecord × AuthoringRequest)}
    {proposed : AuthoringCall} (checked : checkCaps state caps entries proposed = .ok ()) :
    ((total state entries).add (charge proposed.limits [])).Within caps := by
  simp only [checkCaps, bind_eq_ok, refuse_eq_ok, not_not, fromRegistry_eq_ok] at checked
  obtain ⟨usage, computed, _, within, _⟩ := checked
  exact reserved_eq_ok computed ▸ within

/-- The attempts of a candidate and those of the batch, each with the proposed call, stay within their caps. -/
structure Affordable (records : ArtifactRef → Option AuthoringRequest) (batch : AuthoringBatch) (state : State)
    (candidate : ArtifactRef) (call : AuthoringCall) : Prop where
  candidate : ((total state (calls records state candidate)).add (charge call.limits [])).Within
    batch.candidateCaps
  batch : ((total state (batch.candidates.flatMap (calls records state))).add (charge call.limits [])).Within
    batch.batchCaps

def listed (records : ArtifactRef → Option AuthoringRequest) (state : State) (candidate : ArtifactRef) :
    List (JobRecord × AuthoringRequest) :=
  match memberJobs records state candidate with
  | .ok entries => entries
  | .error _ => []

theorem groups_eq_ok {candidates : List ArtifactRef} {members : List (ArtifactRef × JobRecord × AuthoringRequest)}
    (read : groups records state candidates = .ok members) :
    (∀ member ∈ candidates, memberJobs records state member = .ok (listed records state member)) ∧
      members = candidates.flatMap fun member => (listed records state member).map fun entry => (member, entry) := by
  induction candidates generalizing members with
  | nil => exact ⟨by simp, (Except.ok.inj read).symm⟩
  | cons member rest ih =>
      simp only [groups, bind_eq_ok] at read
      obtain ⟨entries, here, others, later, done⟩ := read
      obtain rfl := Except.ok.inj done
      obtain ⟨all, rfl⟩ := ih later
      have entries_eq : listed records state member = entries := by rw [listed, here]
      refine ⟨?_, by rw [List.flatMap_cons, entries_eq]⟩
      simp only [List.forall_mem_cons, entries_eq, here, true_and]
      exact all

theorem map_filter_flatMap {α β : Type} [DecidableEq α] (f : α → List β) {items : List α} (unique : items.Nodup)
    {item : α} (member : item ∈ items) :
    (((items.flatMap fun other => (f other).map fun value => (other, value)).filter
      fun entry => entry.1 = item).map Prod.snd) = f item := by
  have own : ∀ other, ((f other).map fun value => (other, value)).filter (fun entry => entry.1 = item) =
      if other = item then (f other).map fun value => (other, value) else [] := by
    intro other
    split
    next same => exact List.filter_eq_self.mpr (by simp [same])
    next different => exact List.filter_eq_nil_iff.mpr (by simp [different])
  have absent : ∀ others : List α, item ∉ others →
      (others.flatMap fun other => (f other).map fun value => (other, value)).filter
        (fun entry => entry.1 = item) = [] := by
    intro others outside
    refine List.filter_eq_nil_iff.mpr fun entry inside => ?_
    obtain ⟨other, here, mapped⟩ := List.mem_flatMap.mp inside
    obtain ⟨value, _, rfl⟩ := List.mem_map.mp mapped
    simpa using fun same : other = item => outside (same ▸ here)
  induction items with
  | nil => cases member
  | cons other rest ih =>
      obtain ⟨outside, unique⟩ := List.nodup_cons.mp unique
      rw [List.flatMap_cons, List.filter_append, own, List.map_append]
      rcases List.mem_cons.mp member with rfl | later
      · rw [if_pos rfl, absent rest outside]
        simp [Function.comp_def]
      · rw [if_neg fun same : other = item => outside (same ▸ later), ih unique later]
        rfl

theorem flatMap_perm {α β : Type} {f g : α → List β} {items : List α}
    (same : ∀ item ∈ items, (f item).Perm (g item)) : (items.flatMap f).Perm (items.flatMap g) := by
  induction items with
  | nil => exact .nil
  | cons item rest ih =>
      rw [List.flatMap_cons, List.flatMap_cons]
      exact (same item List.mem_cons_self).append (ih fun other member => same other (List.mem_cons_of_mem _ member))

/-- A call that passes the check is affordable. -/
theorem affordable_of_checkBudget (named : Named state) (inputs : InputsRegistered state)
    {batch : AuthoringBatch} {call : AuthoringCall} (member : candidate ∈ batch.candidates)
    (checked : checkBudget records batch state candidate call = .ok ()) :
    Affordable records batch state candidate call := by
  simp only [checkBudget, bind_eq_ok, fromRegistry_eq_ok] at checked
  obtain ⟨members, read, _, own, all⟩ := checked
  obtain ⟨known, rfl⟩ := groups_eq_ok read
  have perm : ∀ other ∈ batch.candidates,
      (listed records state other).Perm (calls records state other) :=
    fun other inside => memberJobs_perm named inputs (known other inside)
  constructor
  · have within := checkCaps_eq_ok own
    rw [map_filter_flatMap _ batch.distinct member, total_perm (perm candidate member)] at within
    exact within
  · have within := checkCaps_eq_ok all
    rw [List.map_flatMap] at within
    simp only [List.map_map, Function.comp_def, List.map_id'] at within
    rw [total_perm (flatMap_perm perm)] at within
    exact within

end Authoring

end FeatureRl
