import FeatureRl.Registry.Jobs
import Mathlib.Algebra.BigOperators.Group.Finset.Basic

/-!
The artifact graph. Every state keeps a closed, acyclic graph within the limits, in which no
record ever changes, and an installation is accepted exactly when the merged graph is one.
-/

namespace FeatureRl

open Checked

namespace State

variable {sha256 : Bytes → Digest} {state next : State} {data : Json.Members}

/-! ### The graph of an index -/

/-- The direct dependencies of an indexed artifact. -/
def parentsOf (artifacts : Dict Digest ArtifactRecord) (key : Digest) : List Digest :=
  ((artifacts.get? key).map parentKeys).getD []

/-- One indexed artifact depends directly on another. -/
def Depends (artifacts : Dict Digest ArtifactRecord) (child parent : Digest) : Prop :=
  ∃ record, artifacts.get? child = some record ∧ parent ∈ parentKeys record

theorem edge_iff_depends {artifacts : Dict Digest ArtifactRecord} {child parent : Digest} :
    Kahn.Edge artifacts.keys (parentsOf artifacts) child parent ↔
      Depends artifacts child parent := by
  rw [Kahn.Edge, Dict.mem_keys, parentsOf]
  constructor
  · rintro ⟨⟨record, found⟩, member⟩
    rw [found] at member
    exact ⟨record, found, member⟩
  · rintro ⟨record, found, member⟩
    exact ⟨⟨record, found⟩, by rw [found]; exact member⟩

theorem mem_addChild {key child parent other : Digest} {children : Dict Digest (List Digest)} :
    child ∈ ((addChild key children other).get? parent).getD [] ↔
      child ∈ (children.get? parent).getD [] ∨ (child = key ∧ parent = other) := by
  simp only [addChild, Dict.get?_set]
  by_cases same : parent = other
  · subst same
    by_cases known : key ∈ (children.get? parent).getD []
    · simp only [known, if_true, Option.getD_some, and_true]
      exact ⟨.inl, fun found => found.elim id fun equal => equal ▸ known⟩
    · simp [known]
  · simp [same]

theorem nodup_addChild {key parent other : Digest} {children : Dict Digest (List Digest)}
    (unique : ((children.get? parent).getD []).Nodup) :
    (((addChild key children other).get? parent).getD []).Nodup := by
  simp only [addChild, Dict.get?_set]
  by_cases same : parent = other
  · subst same
    by_cases known : key ∈ (children.get? parent).getD []
    · simpa [known] using unique
    · simp only [known, if_true, if_false, Option.getD_some]
      refine List.nodup_append.mpr ⟨unique, List.nodup_singleton _, ?_⟩
      rintro child member last single rfl
      exact known (List.mem_singleton.mp single ▸ member)
  · simpa [same] using unique

theorem addChildren (key : Digest) {parent : Digest} (parents : List Digest)
    {children : Dict Digest (List Digest)}
    (unique : ((children.get? parent).getD []).Nodup) :
    (((parents.foldl (addChild key) children).get? parent).getD []).Nodup ∧
      ∀ child, child ∈ ((parents.foldl (addChild key) children).get? parent).getD [] ↔
        child ∈ (children.get? parent).getD [] ∨ (child = key ∧ parent ∈ parents) := by
  induction parents generalizing children with
  | nil => simpa using unique
  | cons other rest ih =>
      have more : (((addChild key children other).get? parent).getD []).Nodup :=
        nodup_addChild unique
      obtain ⟨distinct, members⟩ := ih more
      refine ⟨distinct, fun child => ?_⟩
      rw [List.foldl_cons, members, mem_addChild, List.mem_cons]
      tauto

theorem childrenOf_entries (entries : List (Digest × ArtifactRecord)) (parent : Digest) :
    let children := entries.foldl (fun children entry =>
      (parentKeys entry.2).foldl (addChild entry.1) children) Dict.empty
    ((children.get? parent).getD []).Nodup ∧
      ∀ child, child ∈ (children.get? parent).getD [] ↔
        ∃ record, (child, record) ∈ entries ∧ parent ∈ parentKeys record := by
  induction entries using List.reverseRecOn with
  | nil => simp
  | append_singleton entries last ih =>
      obtain ⟨unique, earlier⟩ := ih
      simp only [List.foldl_concat]
      obtain ⟨distinct, members⟩ := addChildren last.1 (parentKeys last.2) unique
      refine ⟨distinct, fun child => ?_⟩
      rw [members, earlier]
      simp only [List.mem_append, List.mem_singleton, or_and_right, exists_or, Prod.ext_iff]
      refine or_congr Iff.rfl ⟨?_, ?_⟩
      · rintro ⟨same, member⟩
        exact ⟨last.2, ⟨same, rfl⟩, member⟩
      · rintro ⟨record, ⟨same, rfl⟩, member⟩
        exact ⟨same, member⟩

theorem remainingOf_entries (artifacts : Dict Digest ArtifactRecord) :
    (remainingOf artifacts).entries =
      artifacts.entries.map fun entry => (entry.1, ((parentKeys entry.2).length : Int)) :=
  Dict.entries_foldl_set (fun record => ((parentKeys record).length : Int)) _ artifacts.nodup

theorem remainingOf_get? {artifacts : Dict Digest ArtifactRecord} {key : Digest}
    {record : ArtifactRecord} (found : artifacts.get? key = some record) :
    (remainingOf artifacts).get? key = some ((parentKeys record).length : Int) := by
  rw [← Dict.mem_entries, remainingOf_entries, List.mem_map]
  exact ⟨(key, record), Dict.mem_entries.mpr found, rfl⟩

/-- The loop releases every artifact exactly when no artifact depends on itself. -/
theorem visitedCount_eq_iff {artifacts : Dict Digest ArtifactRecord}
    (resolved : ∀ record ∈ artifacts.values, Resolved artifacts record) :
    visitedCount artifacts = (remainingOf artifacts).size ↔
      Kahn.Acyclic (Depends artifacts) := by
  have count : (remainingOf artifacts).size = artifacts.keys.length := by
    rw [Dict.size, remainingOf_entries, List.length_map, Dict.length_keys, Dict.size]
  have edges : Kahn.Edge artifacts.keys (parentsOf artifacts) = Depends artifacts := by
    funext child parent
    exact propext edge_iff_depends
  have record_at : ∀ {key}, key ∈ artifacts.keys →
      ∃ record, artifacts.get? key = some record ∧ parentsOf artifacts key = parentKeys record := by
    intro key member
    obtain ⟨record, found⟩ := Dict.mem_keys.mp member
    exact ⟨record, found, by rw [parentsOf, found]; rfl⟩
  rw [count, ← edges]
  refine Kahn.countReleased_eq_iff_acyclic artifacts.nodup ?_ ?_ ?_ ?_ ?_ ?_ ?_ ?_
  · intro key member
    obtain ⟨record, found, parents⟩ := record_at member
    exact parents ▸ (resolved record (Dict.mem_values.mpr ⟨key, found⟩)).distinct
  · intro key member parent needed
    obtain ⟨record, found, parents⟩ := record_at member
    rw [parents, parentKeys, List.mem_map] at needed
    obtain ⟨ref, cited, rfl⟩ := needed
    have known := (resolved record (Dict.mem_values.mpr ⟨key, found⟩)).known ref cited
    obtain ⟨stored, at_parent, _⟩ := Option.map_eq_some_iff.mp known
    exact Dict.mem_keys.mpr ⟨stored, at_parent⟩
  · exact fun key => (childrenOf_entries artifacts.entries key).1
  · intro key child
    rw [childrenOf, (childrenOf_entries artifacts.entries key).2]
    exact (exists_congr fun record => and_congr_left' Dict.mem_entries).trans
      edge_iff_depends.symm
  · intro key member
    obtain ⟨record, found, parents⟩ := record_at member
    rw [remainingOf_get? found, parents, Option.getD_some]
  · refine List.nodup_reverse.mpr (((List.filter_sublist).map Prod.fst).nodup ?_)
    exact (remainingOf artifacts).nodup
  · intro key
    simp only [List.mem_reverse, List.mem_map, List.mem_filter, decide_eq_true_eq]
    constructor
    · rintro ⟨⟨_, count⟩, ⟨member, rfl⟩, rfl⟩
      rw [remainingOf_entries, List.mem_map] at member
      obtain ⟨⟨key, record⟩, listed, same⟩ := member
      simp only [Prod.mk.injEq, Int.natCast_eq_zero, List.length_eq_zero_iff] at same
      obtain ⟨rfl, none⟩ := same
      have found := Dict.mem_entries.mp listed
      exact ⟨Dict.mem_keys.mpr ⟨record, found⟩, by rw [parentsOf, found]; exact none⟩
    · rintro ⟨member, none⟩
      obtain ⟨record, found, parents⟩ := record_at member
      refine ⟨(key, 0), ⟨Dict.mem_entries.mpr ?_, rfl⟩, rfl⟩
      rw [remainingOf_get? found, ← parents, none]
      rfl
  · exact (Dict.length_keys artifacts).le

/-! ### Merging records into the index -/

theorem indexRecord_eq_ok {artifacts merged : Dict Digest ArtifactRecord}
    {record : ArtifactRecord} : indexRecord artifacts record = .ok merged ↔
      (∀ old, artifacts.get? record.ref.sha256 = some old → old = record) ∧
        merged = artifacts.set record.ref.sha256 record := by
  simp only [indexRecord, bind_eq_ok, refuse_eq_ok, Except.ok.injEq, Bool.not_eq_true,
    Option.any_eq_false, decide_eq_false_iff_not, not_not]
  constructor
  · rintro ⟨-, agrees, same⟩
    exact ⟨agrees, same.symm⟩
  · rintro ⟨agrees, same⟩
    exact ⟨(), agrees, same.symm⟩

/-- The merged index holds the stored and the incoming records and no others. -/
def Merges (artifacts : Dict Digest ArtifactRecord) (records : List ArtifactRecord)
    (merged : Dict Digest ArtifactRecord) : Prop :=
  ∀ key record, merged.get? key = some record ↔
    artifacts.get? key = some record ∨ (record ∈ records ∧ record.ref.sha256 = key)

theorem merges_of_ok {artifacts merged : Dict Digest ArtifactRecord}
    {records : List ArtifactRecord}
    (indexed : foldAll indexRecord artifacts records = .ok merged) :
    Merges artifacts records merged := by
  induction records generalizing artifacts with
  | nil =>
      obtain rfl := Except.ok.inj indexed
      simp [Merges]
  | cons first rest ih =>
      obtain ⟨middle, here, later⟩ := foldAll_cons_eq_ok.mp indexed
      obtain ⟨agrees, rfl⟩ := indexRecord_eq_ok.mp here
      intro key record
      rw [ih later key record, Dict.get?_set]
      by_cases same : key = first.ref.sha256
      · subst same
        simp only [if_true, Option.some.injEq, List.mem_cons]
        constructor
        · rintro (rfl | ⟨member, equal⟩)
          · exact .inr ⟨.inl rfl, rfl⟩
          · exact .inr ⟨.inr member, equal⟩
        · rintro (stored | ⟨rfl | member, equal⟩)
          · exact .inl (agrees record stored).symm
          · exact .inl rfl
          · exact .inr ⟨member, equal⟩
      · simp only [same, if_false, List.mem_cons]
        refine or_congr Iff.rfl (and_congr_left fun equal => ?_)
        simp only [iff_or_self]
        rintro rfl
        exact absurd equal.symm same

/-- The incoming records agree with the stored ones and with each other. -/
structure Agrees (artifacts : Dict Digest ArtifactRecord) (records : List ArtifactRecord) :
    Prop where
  stored : ∀ record ∈ records, ∀ old, artifacts.get? record.ref.sha256 = some old → old = record
  incoming : ∀ record ∈ records, ∀ other ∈ records,
    other.ref.sha256 = record.ref.sha256 → other = record

theorem indexed_iff_agrees {artifacts : Dict Digest ArtifactRecord}
    {records : List ArtifactRecord} :
    (∃ merged, foldAll indexRecord artifacts records = .ok merged) ↔
      Agrees artifacts records := by
  constructor
  · rintro ⟨merged, indexed⟩
    have merges := merges_of_ok indexed
    have held : ∀ record ∈ records, merged.get? record.ref.sha256 = some record :=
      fun record member => (merges _ _).mpr (.inr ⟨member, rfl⟩)
    refine ⟨fun record member old found => ?_, fun record member other another same => ?_⟩
    · have kept := (merges _ _).mpr (.inl found)
      rw [held record member] at kept
      exact (Option.some.inj kept).symm
    · have first := held other another
      rw [same, held record member] at first
      exact (Option.some.inj first).symm
  · intro agrees
    induction records generalizing artifacts with
    | nil => exact ⟨artifacts, rfl⟩
    | cons first rest ih =>
        have here := indexRecord_eq_ok.mpr ⟨agrees.stored first (by simp), rfl⟩
        have below : Agrees (artifacts.set first.ref.sha256 first) rest := by
          refine ⟨fun record member old found => ?_, fun record member other another =>
            agrees.incoming record (by simp [member]) other (by simp [another])⟩
          rw [Dict.get?_set] at found
          split at found
          next same =>
            exact Option.some.inj found ▸
              agrees.incoming record (by simp [member]) first (by simp) same.symm
          next => exact agrees.stored record (by simp [member]) old found
        obtain ⟨merged, later⟩ := ih below
        exact ⟨merged, foldAll_cons_eq_ok.mpr ⟨_, here, later⟩⟩

/-- Each artifact is indexed under its own digest. -/
def Keyed (artifacts : Dict Digest ArtifactRecord) : Prop :=
  ∀ key record, artifacts.get? key = some record → record.ref.sha256 = key

theorem Merges.keyed {artifacts merged : Dict Digest ArtifactRecord}
    {records : List ArtifactRecord} (merges : Merges artifacts records merged)
    (keyed : Keyed artifacts) : Keyed merged := by
  intro key record found
  rcases (merges key record).mp found with stored | ⟨_, same⟩
  · exact keyed key record stored
  · exact same

/-- The stored and the incoming records as a set. -/
def oldAndNew (state : State) (records : List ArtifactRecord) : Finset ArtifactRecord :=
  state.artifacts.values.toFinset ∪ records.toFinset

theorem Merges.values {records : List ArtifactRecord} {merged : Dict Digest ArtifactRecord}
    (merges : Merges state.artifacts records merged) :
    merged.values.toFinset = oldAndNew state records := by
  ext record
  simp only [oldAndNew, Finset.mem_union, List.mem_toFinset, Dict.mem_values, merges _ record,
    exists_or, exists_and_left, exists_eq', and_true]

theorem Keyed.values_nodup {artifacts : Dict Digest ArtifactRecord} (keyed : Keyed artifacts) :
    artifacts.values.Nodup := by
  refine List.Nodup.of_map (fun record => record.ref.sha256) ?_
  have keys : artifacts.values.map (fun record => record.ref.sha256) = artifacts.keys := by
    rw [Dict.values, Dict.keys, List.map_map]
    exact List.map_congr_left fun entry member => keyed _ _ (Dict.mem_entries.mp member)
  exact keys ▸ artifacts.nodup

theorem Keyed.size_eq {artifacts : Dict Digest ArtifactRecord} (keyed : Keyed artifacts) :
    artifacts.size = artifacts.values.toFinset.card := by
  rw [List.toFinset_card_of_nodup keyed.values_nodup, Dict.length_values]

theorem Keyed.edgeCount_eq {artifacts : Dict Digest ArtifactRecord} (keyed : Keyed artifacts) :
    edgeCount artifacts =
      ∑ record ∈ artifacts.values.toFinset, record.dependencies.val.length := by
  rw [List.sum_toFinset _ keyed.values_nodup]
  simp [edgeCount, parentKeys]

/-! ### The graph invariant -/

/-- A closed, acyclic graph of artifacts without repeated dependencies, within the limits. -/
structure GraphInvariant (state : State) : Prop where
  keyed : Keyed state.artifacts
  resolved : ∀ record ∈ state.artifacts.values, Resolved state.artifacts record
  acyclic : Kahn.Acyclic (Depends state.artifacts)
  artifacts_le : state.artifacts.size ≤ state.limits.maxArtifacts.val
  edges_le : edgeCount state.artifacts ≤ state.limits.maxGraphEdges.val

namespace GraphInvariant

theorem empty (limits : RegistryLimits) : GraphInvariant (State.empty limits) where
  keyed key record found := by cases found
  resolved record member := by cases member
  acyclic key cycle := by
    rcases Relation.TransGen.head'_iff.mp cycle with ⟨_, ⟨_, found, _⟩, _⟩
    cases found
  artifacts_le := Nat.zero_le _
  edges_le := Nat.zero_le _

theorem install (invariant : GraphInvariant state) {records : List ArtifactRecord}
    (installed : state.install records = .ok next) : GraphInvariant next := by
  obtain ⟨merged, indexed, installable, rfl⟩ := install_eq_ok.mp installed
  exact ⟨(merges_of_ok indexed).keyed invariant.keyed, installable.resolved,
    (visitedCount_eq_iff installable.resolved).mp installable.released, installable.room,
    installable.edges⟩

theorem frame (invariant : GraphInvariant state) {next : State}
    (same_artifacts : next.artifacts = state.artifacts) (same_limits : next.limits = state.limits) :
    GraphInvariant next := by
  constructor
  · exact same_artifacts ▸ invariant.keyed
  · exact same_artifacts ▸ invariant.resolved
  · exact same_artifacts ▸ invariant.acyclic
  · exact same_artifacts ▸ same_limits ▸ invariant.artifacts_le
  · exact same_artifacts ▸ same_limits ▸ invariant.edges_le

theorem expand (invariant : GraphInvariant state) {limits : RegistryLimits}
    (grows : state.limits.Le limits) : GraphInvariant { state with limits } := by
  have capacities := grows.capacities
  simp only [RegistryLimits.capacities, List.forall₂_cons] at capacities
  exact ⟨invariant.keyed, invariant.resolved, invariant.acyclic,
    invariant.artifacts_le.trans capacities.2.1, invariant.edges_le.trans capacities.2.2.2.1⟩

end GraphInvariant

/-- Only an installation touches the artifact index. -/
theorem Change.artifacts_eq {action : Action} (change : Change sha256 state data action next) :
    next.artifacts = state.artifacts ∧ next.limits = state.limits := by
  cases change <;> exact ⟨rfl, rfl⟩

theorem GraphInvariant.step (invariant : GraphInvariant state) {action : Action}
    (step : Step sha256 state data action next) : GraphInvariant next := by
  cases step with
  | expand guard => exact invariant.expand (guard.contiguous ▸ LimitExpansion.le _)
  | event installs change =>
      have installed := invariant.install installs.installs
      exact installed.frame change.artifacts_eq.1 change.artifacts_eq.2

theorem GraphInvariant.run {events : List (Action × Json.Members)}
    (start : GraphInvariant state) (ran : state.run sha256 events = .ok next) :
    GraphInvariant next :=
  run_induction (motive := fun _ after => GraphInvariant after) start
    (fun _ _ _ _ _ _ invariant step => invariant.step step) ran

/-- No event changes a registered record. -/
theorem Step.artifact_kept {action : Action} (step : Step sha256 state data action next)
    {key : Digest} {record : ArtifactRecord} (found : state.artifacts.get? key = some record) :
    next.artifacts.get? key = some record := by
  cases step with
  | expand guard => exact found
  | event installs change =>
      obtain ⟨merged, indexed, _, rfl⟩ := install_eq_ok.mp installs.installs
      rw [change.artifacts_eq.1]
      exact (merges_of_ok indexed _ _).mpr (.inl found)

theorem run_artifact_kept {events : List (Action × Json.Members)} {key : Digest}
    {record : ArtifactRecord} (found : state.artifacts.get? key = some record)
    (ran : state.run sha256 events = .ok next) : next.artifacts.get? key = some record :=
  run_induction (motive := fun _ after => after.artifacts.get? key = some record) found
    (fun _ _ _ _ _ _ kept step => step.artifact_kept kept) ran

/-! ### Acceptance of an installation -/

/-- One incoming record depends on a digest. -/
def Cites (records : List ArtifactRecord) (child parent : Digest) : Prop :=
  ∃ record ∈ records, record.ref.sha256 = child ∧ parent ∈ parentKeys record

/-- Known records are identical, dependencies resolve, the incoming records have no cycle and
the limits hold. -/
structure Consistent (state : State) (records : List ArtifactRecord) : Prop where
  agrees : Agrees state.artifacts records
  resolved : ∀ record ∈ records, ∀ parent ∈ record.dependencies.val,
    ∃ known ∈ oldAndNew state records, known.ref = parent
  acyclic : Kahn.Acyclic (Cites records)
  artifacts_le : (oldAndNew state records).card ≤ state.limits.maxArtifacts.val
  edges_le : ∑ record ∈ oldAndNew state records, record.dependencies.val.length ≤
    state.limits.maxGraphEdges.val

/-- Consistent records none of which lists a dependency twice. -/
structure Acceptable (state : State) (records : List ArtifactRecord) : Prop
    extends Consistent state records where
  distinct : ∀ record ∈ records, (parentKeys record).Nodup

theorem GraphInvariant.acyclic_iff (invariant : GraphInvariant state)
    {records : List ArtifactRecord} {merged : Dict Digest ArtifactRecord}
    (merges : Merges state.artifacts records merged) :
    Kahn.Acyclic (Depends merged) ↔ Kahn.Acyclic (Cites records) := by
  refine Kahn.acyclic_iff_of_settled (· ∈ state.artifacts.keys) ?_ ?_ ?_ invariant.acyclic
  · rintro key parent stored ⟨record, found, needed⟩
    obtain ⟨old, at_key⟩ := Dict.mem_keys.mp stored
    have kept := (merges key old).mpr (.inl at_key)
    rw [found] at kept
    obtain rfl := Option.some.inj kept
    refine ⟨⟨record, at_key, needed⟩, ?_⟩
    obtain ⟨ref, cited, rfl⟩ := List.mem_map.mp needed
    have known := (invariant.resolved record (Dict.mem_values.mpr ⟨key, at_key⟩)).known ref cited
    obtain ⟨below, at_parent, _⟩ := Option.map_eq_some_iff.mp known
    exact Dict.mem_keys.mpr ⟨below, at_parent⟩
  · rintro key parent fresh ⟨record, found, needed⟩
    rcases (merges key record).mp found with stored | ⟨member, same⟩
    · exact absurd (Dict.mem_keys.mpr ⟨record, stored⟩) fresh
    · exact ⟨record, member, same, needed⟩
  · rintro key parent ⟨record, member, same, needed⟩
    exact ⟨record, (merges key record).mpr (.inr ⟨member, same⟩), needed⟩

theorem GraphInvariant.resolved_iff (invariant : GraphInvariant state)
    {records : List ArtifactRecord} {merged : Dict Digest ArtifactRecord}
    (merges : Merges state.artifacts records merged) :
    (∀ record ∈ merged.values, Resolved merged record) ↔
      ∀ record ∈ records, (parentKeys record).Nodup ∧ ∀ parent ∈ record.dependencies.val,
        ∃ known ∈ oldAndNew state records, known.ref = parent := by
  have keyed := merges.keyed invariant.keyed
  have listed : ∀ record, record ∈ merged.values ↔ record ∈ oldAndNew state records := by
    intro record
    rw [← merges.values, List.mem_toFinset]
  have found_iff : ∀ parent, (merged.get? parent.sha256).map ArtifactRecord.ref = some parent ↔
      ∃ known ∈ oldAndNew state records, known.ref = parent := by
    intro parent
    rw [Option.map_eq_some_iff]
    constructor
    · rintro ⟨known, found, same⟩
      exact ⟨known, (listed known).mp (Dict.mem_values.mpr ⟨_, found⟩), same⟩
    · rintro ⟨known, member, rfl⟩
      obtain ⟨key, found⟩ := Dict.mem_values.mp ((listed known).mpr member)
      exact ⟨known, keyed key known found ▸ found, rfl⟩
  constructor
  · intro resolved record member
    have here := resolved record ((listed record).mpr (by simp [oldAndNew, member]))
    exact ⟨here.distinct, fun parent cited => (found_iff parent).mp (here.known parent cited)⟩
  · intro new record member
    rcases Finset.mem_union.mp ((listed record).mp member) with stored | incoming
    · have old := invariant.resolved record (List.mem_toFinset.mp stored)
      refine ⟨old.distinct, fun parent cited => ?_⟩
      obtain ⟨known, found, same⟩ := Option.map_eq_some_iff.mp (old.known parent cited)
      exact Option.map_eq_some_iff.mpr ⟨known, (merges _ _).mpr (.inl found), same⟩
    · obtain ⟨distinct, cited⟩ := new record (List.mem_toFinset.mp incoming)
      exact ⟨distinct, fun parent member => (found_iff parent).mpr (cited parent member)⟩

/-- An installation is accepted exactly when its records are acceptable. -/
theorem GraphInvariant.install_iff (invariant : GraphInvariant state)
    (records : List ArtifactRecord) :
    (∃ next, state.install records = .ok next) ↔ Acceptable state records := by
  constructor
  · rintro ⟨next, installed⟩
    obtain ⟨merged, indexed, installable, rfl⟩ := install_eq_ok.mp installed
    have merges := merges_of_ok indexed
    have keyed := merges.keyed invariant.keyed
    have resolved := (invariant.resolved_iff merges).mp installable.resolved
    have acyclic := (visitedCount_eq_iff installable.resolved).mp installable.released
    have room := installable.room
    have edges := installable.edges
    rw [keyed.size_eq, merges.values] at room
    rw [keyed.edgeCount_eq, merges.values] at edges
    exact ⟨⟨indexed_iff_agrees.mp ⟨merged, indexed⟩, fun record member =>
      (resolved record member).2, (invariant.acyclic_iff merges).mp acyclic, room, edges⟩,
      fun record member => (resolved record member).1⟩
  · intro acceptable
    obtain ⟨merged, indexed⟩ := indexed_iff_agrees.mpr acceptable.agrees
    have merges := merges_of_ok indexed
    have keyed := merges.keyed invariant.keyed
    have resolved := (invariant.resolved_iff merges).mpr fun record member =>
      ⟨acceptable.distinct record member, acceptable.resolved record member⟩
    refine ⟨_, install_eq_ok.mpr ⟨merged, indexed, ⟨?_, resolved, ?_, ?_⟩, rfl⟩⟩
    · rw [keyed.size_eq, merges.values]
      exact acceptable.artifacts_le
    · rw [keyed.edgeCount_eq, merges.values]
      exact acceptable.edges_le
    · exact (visitedCount_eq_iff resolved).mpr
        ((invariant.acyclic_iff merges).mpr acceptable.acyclic)

/-- A registration with these records and no other member. -/
def registration (records : List ArtifactRecord) : Json.Members :=
  [("artifacts", (Codec.tuple ArtifactRecord.codec).document records)]

theorem apply_registration (records : List ArtifactRecord) :
    (∃ next, state.apply sha256 .register (registration records) = .ok next) ↔
      records.length ≤ state.limits.maxClosureArtifacts.val ∧
        ∃ next, state.install records = .ok next := by
  have payload : member (registration records) "artifacts" =
      (Codec.tuple ArtifactRecord.codec).document records := rfl
  have decoded : ∀ others, (Codec.tuple ArtifactRecord.codec).validate
      (member (registration records) "artifacts") = some others ↔ others = records := by
    intro others
    rw [payload, Codec.validate_document, Option.some.injEq, eq_comm]
  simp only [apply, reduceCtorEq, if_false, applyEvent_eq_ok]
  constructor
  · rintro ⟨next, others, installed, installs, _⟩
    obtain rfl := (decoded others).mp installs.decoded
    exact ⟨installs.bounded, installed, installs.installs⟩
  · rintro ⟨bounded, installed, ok⟩
    exact ⟨installed, records, installed, ⟨rfl, (decoded records).mpr rfl, bounded, ok⟩, rfl⟩

/-- Acceptance depends on which records are incoming, not on their order. -/
theorem Acceptable.perm {records others : List ArtifactRecord} (same : records.Perm others)
    (acceptable : Acceptable state records) : Acceptable state others := by
  have members : ∀ record, record ∈ others ↔ record ∈ records := fun _ => same.mem_iff.symm
  have sets : oldAndNew state others = oldAndNew state records := by
    ext record
    simp [oldAndNew, members]
  have cites : Cites others = Cites records := by
    funext child parent
    simp [Cites, members]
  refine ⟨⟨⟨?_, ?_⟩, ?_, ?_, ?_, ?_⟩, ?_⟩
  · exact fun record member => acceptable.agrees.stored record ((members _).mp member)
  · exact fun record member other another =>
      acceptable.agrees.incoming record ((members _).mp member) other ((members _).mp another)
  · intro record member
    rw [sets]
    exact acceptable.resolved record ((members _).mp member)
  · exact cites ▸ acceptable.acyclic
  · exact sets ▸ acceptable.artifacts_le
  · exact sets ▸ acceptable.edges_le
  · exact fun record member => acceptable.distinct record ((members _).mp member)

/-- After every run the artifacts form a closed, acyclic graph within the limits whose records
the run never changed, and an installation is accepted exactly when its records, in any order,
are consistent with that graph and list no dependency twice. -/
theorem run_artifactGraph (sha256 : Bytes → Digest) (limits : RegistryLimits)
    (events : List (Action × Json.Members)) (state : State)
    (ran : (State.empty limits).run sha256 events = .ok state) :
    GraphInvariant state ∧
      (∀ earlier later middle key record, events = earlier ++ later →
        (State.empty limits).run sha256 earlier = .ok middle →
        middle.artifacts.get? key = some record → state.artifacts.get? key = some record) ∧
      (∀ records, (∃ next, state.install records = .ok next) ↔ Acceptable state records) ∧
      (∀ records others, records.Perm others →
        ((∃ next, state.install records = .ok next) ↔ ∃ next, state.install others = .ok next)) ∧
      ∀ records, (∃ next, state.apply sha256 .register (registration records) = .ok next) ↔
        records.length ≤ state.limits.maxClosureArtifacts.val ∧ Acceptable state records := by
  have invariant := (GraphInvariant.empty limits).run ran
  refine ⟨invariant, ?_, invariant.install_iff, ?_, ?_⟩
  · rintro earlier later middle key record rfl before found
    obtain ⟨again, reran, after⟩ := foldAll_append_eq_ok.mp ran
    obtain rfl : middle = again := Except.ok.inj (before.symm.trans reran)
    exact run_artifact_kept found after
  · intro records others same
    rw [invariant.install_iff, invariant.install_iff]
    exact ⟨Acceptable.perm same, Acceptable.perm same.symm⟩
  · intro records
    rw [apply_registration, invariant.install_iff]

/-- Two new artifacts, one of which lists the other twice. -/
def Sample.repeated : List ArtifactRecord :=
  [⟨source, Refs.empty⟩, ⟨settings, ⟨[source, source], rfl⟩⟩]

theorem Sample.repeated_acyclic : Kahn.Acyclic (Cites repeated) := by
  have edge : ∀ child parent, Cites repeated child parent →
      child = settings.sha256 ∧ parent = source.sha256 := by
    rintro child parent ⟨record, member, rfl, needed⟩
    simp only [repeated, List.mem_cons, List.not_mem_nil, or_false] at member
    rcases member with rfl | rfl
    · cases needed
    · simpa [parentKeys] using needed
  intro key cycle
  obtain ⟨_, first, _⟩ := Relation.TransGen.head'_iff.mp cycle
  obtain ⟨_, _, last⟩ := Relation.TransGen.tail'_iff.mp cycle
  have same : settings.sha256 = source.sha256 := (edge _ _ first).1.symm.trans (edge _ _ last).2
  exact absurd same (by decide +kernel)

theorem Sample.repeated_consistent :
    Consistent (State.empty RegistryLimits.default) repeated := by
  have apart : source.sha256 ≠ settings.sha256 := by decide +kernel
  refine ⟨⟨?_, ?_⟩, ?_, repeated_acyclic, by decide +kernel, by decide +kernel⟩
  · intro record _ old found
    cases found
  · intro record member other another same
    simp only [repeated, List.mem_cons, List.not_mem_nil, or_false] at member another
    rcases member with rfl | rfl <;> rcases another with rfl | rfl
    · rfl
    · exact absurd same.symm apart
    · exact absurd same apart
    · rfl
  · intro record member parent cited
    refine ⟨⟨source, Refs.empty⟩, by simp [oldAndNew, repeated], ?_⟩
    simp only [repeated, List.mem_cons, List.not_mem_nil, or_false] at member
    rcases member with rfl | rfl
    · cases cited
    · have same : parent = source := by simpa using cited
      exact same.symm

/-- Consistency alone is not enough: a repeated dependency is refused. -/
theorem install_repeated_dependency :
    (State.empty RegistryLimits.default).run Sample.digestOf [] =
        .ok (State.empty RegistryLimits.default) ∧
      Consistent (State.empty RegistryLimits.default) Sample.repeated ∧
      ¬ ∃ next, (State.empty RegistryLimits.default).install Sample.repeated = .ok next := by
  refine ⟨rfl, Sample.repeated_consistent, ?_⟩
  rw [(GraphInvariant.empty _).install_iff]
  intro acceptable
  have unique := acceptable.distinct ⟨Sample.settings, ⟨[Sample.source, Sample.source], rfl⟩⟩
    (by simp [Sample.repeated])
  simp [parentKeys] at unique

theorem run_artifactGraph_sample :
    ∃ state, (State.empty RegistryLimits.default).run Sample.digestOf Sample.events = .ok state ∧
      GraphInvariant state := by
  obtain ⟨state, ran, _⟩ := Sample.ran
  exact ⟨state, ran, (run_artifactGraph Sample.digestOf RegistryLimits.default Sample.events state
    ran).1⟩

end State

end FeatureRl
